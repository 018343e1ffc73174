import LangGraphFunctions.Locks.LeaseLoss

/-! The ownership guard of the lease lock: what a check says, and that no rejection is taken back. -/

namespace LangGraphFunctions.Locks.AzureBlob

open Lib

variable {ι : Type}

def Owns (key : Key) (token : String) (W : World) : Prop :=
  W.lock.closed = false ∧ ∃ state, W.lock.active.get? key = some state ∧ state.token = token ∧
    (W.lock.health state.lease).lost = false

structure Wanes (key : Key) (token : String) (W W' : World) : Prop where
  closed : W.lock.closed → W'.lock.closed
  lost : ∀ n, (W.lock.health n).lost → (W'.lock.health n).lost
  known : token ∈ W.tokens → token ∈ W'.tokens
  tracked : token ∈ W.tokens → ∀ state, W'.lock.active.get? key = some state →
    state.token = token → W.lock.active.get? key = some state

section

variable {key : Key} {token : String} {W W' W'' : World}

theorem Wanes.refl (key : Key) (token : String) (W : World) : Wanes key token W W :=
  ⟨id, fun _ => id, id, fun _ _ h _ => h⟩

theorem Wanes.trans (h : Wanes key token W W') (h' : Wanes key token W' W'') :
    Wanes key token W W'' where
  closed := h'.closed ∘ h.closed
  lost n := h'.lost n ∘ h.lost n
  known := h'.known ∘ h.known
  tracked hknown state hstate htoken :=
    h.tracked hknown state (h'.tracked (h.known hknown) state hstate htoken) htoken

theorem Wanes.open (h : Wanes key token W W') (hopen : W'.lock.closed = false) :
    W.lock.closed = false := by
  rw [← Bool.not_eq_true] at hopen ⊢
  exact mt h.closed hopen

theorem Wanes.kept (h : Wanes key token W W') {n : Nat} (hkept : (W'.lock.health n).lost = false) :
    (W.lock.health n).lost = false := by
  rw [← Bool.not_eq_true] at hkept ⊢
  exact mt (h.lost n) hkept

theorem Wanes.owns (h : Wanes key token W W') (hknown : token ∈ W.tokens)
    (howns : Owns key token W') : Owns key token W := by
  obtain ⟨hopen, state, hstate, htoken, hlost⟩ := howns
  exact ⟨h.open hopen, state, h.tracked hknown state hstate htoken, htoken, h.kept hlost⟩

/-- A check that passes does so for a token that owned the key when it began; one that is rejected,
for a token that does not own it any more. -/
structure Decides (key : Key) (token : String) (W : World) (r : Except Exn Unit) (W' : World) :
    Prop where
  known : token ∈ W'.tokens
  passed : r = .ok () → Owns key token W
  rejected : ∀ e, r = .error e → ¬ Owns key token W' ∧ ∃ reason, e = .threadLeaseLost reason

theorem decides_reject {reason : LeaseLossReason} (hknown : token ∈ W'.tokens)
    (hnot : ¬ Owns key token W') : Decides key token W (.error (.threadLeaseLost reason)) W' where
  known := hknown
  passed h := by cases h
  rejected e h := by
    cases h
    exact ⟨hnot, reason, rfl⟩

theorem decides_pass (hknown : token ∈ W'.tokens) (howns : Owns key token W) :
    Decides key token W (.ok ()) W' where
  known := hknown
  passed _ := howns
  rejected e h := by cases h

theorem Decides.wanes {r : Except Exn Unit} (h : Decides key token W r W')
    (hwanes : Wanes key token W' W'') : Decides key token W r W'' where
  known := hwanes.known h.known
  passed := h.passed
  rejected e he := ⟨mt (hwanes.owns h.known) (h.rejected e he).1, (h.rejected e he).2⟩

theorem check_safe (hknown : token ∈ W.tokens) :
    (check key token).Safe service (Wanes key token) (fun _ _ _ _ => True) (Decides key token W) W := by
  rintro _ h₁ closed W₁ ⟨rfl, rfl⟩
  refine ⟨trivial, ?_⟩
  have hknown₁ := h₁.known hknown
  cases hclosed : W₁.lock.closed with
  | true =>
    refine decides_reject hknown₁ fun howns => ?_
    cases hclosed.symm.trans howns.1
  | false =>
    rintro _ h₂ entry W₂ ⟨rfl, rfl⟩
    refine ⟨trivial, ?_⟩
    have hknown₂ := h₂.known hknown₁
    cases hentry : W₂.lock.active.get? key with
    | none =>
      refine decides_reject hknown₂ fun howns => ?_
      obtain ⟨-, state, hstate, -⟩ := howns
      cases hentry.symm.trans hstate
    | some state =>
      change Prog.Safe service (Wanes key token) (fun _ _ _ _ => True) (Decides key token W)
        ((if state.token ≠ token then _ else _ : Call (Option LeaseLossReason)) >>= _) W₂
      by_cases htoken : state.token = token
      · rw [if_neg (not_not.mpr htoken)]
        rintro _ h₃ lost W₃ ⟨rfl, rfl⟩
        refine ⟨trivial, ?_⟩
        have hknown₃ := h₃.known hknown₂
        cases hlost : (W₃.lock.health state.lease).lost with
        | true =>
          refine decides_reject hknown₃ fun howns => ?_
          obtain ⟨-, state', hstate', htoken', hlost'⟩ := howns
          cases hentry.symm.trans (h₃.tracked hknown₂ state' hstate' htoken')
          cases hlost.symm.trans hlost'
        | false =>
          have h₁₂ := h₁.trans h₂
          exact decides_pass hknown₃ ⟨h₁.open hclosed, state, h₁₂.tracked hknown state hentry htoken,
            htoken, (h₁₂.trans h₃).kept hlost⟩
      · rw [if_pos htoken]
        refine decides_reject hknown₂ fun howns => ?_
        obtain ⟨-, state', hstate', htoken', -⟩ := howns
        cases hentry.symm.trans hstate'
        exact htoken htoken'

end

def Made (key : Key) (token : String) (t : List (LeaseEvent ι)) : Prop :=
  ∃ i W a W', .op i (.ownershipGuard key token) (.guardToken token) W a W' ∈ t

def IsCheck (i : ι) (key : Key) (token : String) (W : World) (r : Except Exn (Option String))
    (W' : World) (u : List (LeaseEvent ι)) : Prop :=
  ∃ v, (∀ q W, .start i q W ∉ v) ∧
    u = .start i (.check key token) W :: (v ++ [.leave i (.check key token) (Prog.ofExcept r) W'])

/-- What the checks of a run say, and that a rejection is final. -/
structure GuardDecides (t : List (LeaseEvent ι)) : Prop where
  passed : ∀ {t₁ u t₂ i key token W r W'}, t = t₁ ++ (u ++ t₂) → Made key token t₁ →
    IsCheck i key token W r W' u → r = .ok none → Owns key token W
  rejected : ∀ {t₁ u t₂ i key token W r W'}, t = t₁ ++ (u ++ t₂) → Made key token t₁ →
    IsCheck i key token W r W' u → r ≠ .ok none →
      ¬ Owns key token W' ∧ ∃ reason, r = .error (.threadLeaseLost reason)
  undisturbed : ∀ {t₁ u t₂ i key token W r}, t = t₁ ++ (u ++ t₂) → Made key token t₁ →
    IsCheck i key token W r W u → (r = .ok none ↔ Owns key token W)
  final : ∀ {t₁ u v u' t₂ i j key token W r W' V r' V'}, t = t₁ ++ (u ++ (v ++ (u' ++ t₂))) →
    Made key token t₁ → IsCheck i key token W r W' u → IsCheck j key token V r' V' u' →
      r ≠ .ok none → r' ≠ .ok none

section

variable [DecidableEq ι] {blobPrefix : String} {t t₁ t₂ u : List (LeaseEvent ι)} {P : Threads ι}
  {i : ι} {q : Request} {o : Op} {W W' : World} {a : o.Ans} {key : Key} {token : String}

theorem LeaseRun.wanes (h : LeaseRun blobPrefix t P) (hmem : .op i q o W a W' ∈ t) :
    Wanes key token W W' where
  closed := closed_of_step (h.runs.step_of_op hmem)
  lost _ := h.lost_step hmem
  known := tokens_of_step (h.runs.step_of_op hmem)
  tracked hknown state hstate htoken := by
    rcases h.tracked_step hmem hstate with ⟨hnew, -⟩ | ⟨hbefore, -⟩
    · exact absurd (htoken ▸ hknown) hnew
    · exact hbefore

theorem LeaseRun.known (h : LeaseRun blobPrefix t P) (hmade : Made key token t) :
    token ∈ P.store.tokens := by
  obtain ⟨j, W, a, W', hmem⟩ := hmade
  obtain ⟨u₁, u₂, rfl⟩ := List.append_of_mem hmem
  obtain ⟨P₁, -, h₂⟩ := h.runs.split
  have hs : service.step (.guardToken token) W a W' := h.runs.step_of_op hmem
  obtain ⟨rfl, P₂, rfl, h₃⟩ := h₂.op
  refine h₃.keeps (J := fun W => token ∈ W.tokens) (fun _ _ _ _ _ _ hmem => ?_) ?_
  · exact tokens_of_step (h₃.step_of_op hmem)
  · rw [show P₂.store = _ from hs]
    exact List.mem_cons_self

abbrev Moves (blobPrefix : String) (P : Threads ι) (t : List (LeaseEvent ι))
    (P' : Threads ι) : Prop :=
  Pool.Runs (fun _ _ => service) (Request.program blobPrefix) (fun _ _ _ => True) P t P'

theorem store_of_start {P P' : Threads ι} (h : Moves blobPrefix P (.start i q W :: u) P') :
    P.store = W := by
  cases h with
  | cons hstep _ =>
    cases hstep with
    | start _ _ => rfl

theorem store_of_leave {P P' : Threads ι} {p : Call (Option String)}
    (h : Moves blobPrefix P (t ++ [.leave i q p W]) P') : P'.store = W := by
  obtain ⟨P₁, -, h⟩ := h.split
  cases h with
  | cons hstep hrest =>
    cases hrest
    cases hstep with
    | leave _ => rfl

theorem LeaseRun.decided {r : Except Exn (Option String)} (h : LeaseRun blobPrefix (t₁ ++ (u ++ t₂)) P)
    (hmade : Made key token t₁) (hu : IsCheck i key token W r W' u) :
    token ∈ W.tokens ∧ ∃ r₀ : Except Exn Unit, r = (fun _ => none) <$> r₀ ∧
      Decides key token W r₀ W' := by
  obtain ⟨v, hno, rfl⟩ := hu
  obtain ⟨P₁, h₁, h₂⟩ := h.split
  have hknown : token ∈ W.tokens := store_of_start h₂ ▸ h₁.known hmade
  have hruns := h.runs
  rw [List.cons_append, List.append_assoc, List.singleton_append] at hruns
  refine ⟨hknown, hruns.outcome (R := Wanes key token) (G := fun _ _ _ _ => True)
    (Q := fun r W' => ∃ r₀ : Except Exn Unit, r = (fun _ => none) <$> r₀ ∧ Decides key token W r₀ W')
    .trans (.refl key token) ?_ hno (fun j q o W₁ a W₂ hmem _ => h.wanes (i := j) (q := q) (a := a) ?_) ?_⟩
  · rintro r W₁ W₂ hwanes ⟨r₀, hr, hdecides⟩
    exact ⟨r₀, hr, hdecides.wanes hwanes⟩
  · simp [hmem]
  · change Prog.Safe _ _ _ _ ((fun _ => none) <$> check key token) W
    rw [map_eq_pure_bind]
    refine Prog.safe_bind.mpr ((check_safe hknown).mono fun r₀ W₁ hdecides => ?_)
    cases r₀ with
    | ok _ => exact ⟨.ok (), rfl, hdecides⟩
    | error e => exact ⟨.error e, rfl, hdecides⟩

theorem map_eq_ok_iff {r₀ : Except Exn Unit} :
    (fun _ => none : Unit → Option String) <$> r₀ = .ok none ↔ r₀ = .ok () := by
  cases r₀ with
  | ok _ => exact iff_of_true rfl rfl
  | error e => exact iff_of_false (fun h => by cases h) fun h => by cases h

theorem guardDecides (h : LeaseRun blobPrefix t P) : GuardDecides t := by
  have hpassed : ∀ {t₁ u t₂ i key token W r W'}, t = t₁ ++ (u ++ t₂) → Made key token t₁ →
      IsCheck i key token W r W' u → r = .ok none → Owns key token W := by
    rintro t₁ u t₂ i key token W r W' rfl hmade hu hr
    obtain ⟨-, r₀, rfl, hdecides⟩ := h.decided hmade hu
    exact hdecides.passed (map_eq_ok_iff.mp hr)
  have hrejected : ∀ {t₁ u t₂ i key token W r W'}, t = t₁ ++ (u ++ t₂) → Made key token t₁ →
      IsCheck i key token W r W' u → r ≠ .ok none →
        ¬ Owns key token W' ∧ ∃ reason, r = .error (.threadLeaseLost reason) := by
    rintro t₁ u t₂ i key token W r W' rfl hmade hu hr
    obtain ⟨-, r₀, rfl, hdecides⟩ := h.decided hmade hu
    cases r₀ with
    | ok _ => exact absurd rfl hr
    | error e =>
      obtain ⟨hnot, reason, rfl⟩ := hdecides.rejected e rfl
      exact ⟨hnot, reason, rfl⟩
  refine ⟨hpassed, hrejected, fun {t₁ u t₂ i key token W r} ht hmade hu => ⟨hpassed ht hmade hu, fun howns => ?_⟩, ?_⟩
  · by_contra hr
    exact (hrejected ht hmade hu hr).1 howns
  · rintro t₁ u v u' t₂ i j key token W r W' V r' V' ht hmade hu hu' hr hr'
    have hnot := (hrejected ht hmade hu hr).1
    have hmade' : Made key token (t₁ ++ (u ++ v)) := by
      obtain ⟨j, W₁, a, W₂, hmem⟩ := hmade
      exact ⟨j, W₁, a, W₂, List.mem_append_left _ hmem⟩
    have ht' : t = (t₁ ++ (u ++ v)) ++ (u' ++ t₂) := by simp [ht]
    subst ht
    have hknown : token ∈ W'.tokens := by
      obtain ⟨-, r₀, -, hdecides⟩ := h.decided hmade hu
      exact hdecides.known
    have howns := hpassed ht' hmade' hu' hr'
    obtain ⟨P₁, h₁, h₂⟩ := h.split
    obtain ⟨P₂, hcall, h₃⟩ := h₂.split
    obtain ⟨P₃, hv, h₄⟩ := h₃.split
    obtain ⟨w, -, rfl⟩ := hu
    obtain ⟨w', -, rfl⟩ := hu'
    rw [← List.cons_append] at hcall
    have hW' : P₂.store = W' := store_of_leave hcall
    have hV : P₃.store = V := store_of_start h₄
    have hgone := hv.keeps (J := fun W => ¬ Owns key token W ∧ token ∈ W.tokens)
      (fun j q o W₁ a W₂ hmem hJ => ?_) (hW' ▸ ⟨hnot, hknown⟩)
    · exact hgone.1 (hV ▸ howns)
    · have hwanes : Wanes key token W₁ W₂ := h.wanes (i := j) (q := q) (a := a) (by simp [hmem])
      exact ⟨mt (hwanes.owns hJ.2) hJ.1, hwanes.known hJ.2⟩

end

end LangGraphFunctions.Locks.AzureBlob
