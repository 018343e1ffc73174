import LangGraphFunctions.Platform.WaitRuns

/-! What a run on the table store leaves in the row, and in the lock, of its thread. -/

namespace LangGraphFunctions.Platform.RunReleases

open Lib EtagTable Stores AzureTable LockPairs WaitRuns Wait

variable {α β : Type} {me : Nat} {T T' T'' : Table} {threadId token graphName lockToken : String}
  {status : ThreadStatus} {values : Option JsonObject} {u v t : List RunOp} {e : RunOp}

def Holds (threadId token : String) (T : Table) : Prop :=
  ∃ row, T.row? threadId = some row ∧ holdsToken row.entity token

theorem HeldBy.holds (h : HeldBy threadId token T) : Holds threadId token T := by
  obtain ⟨row, hrow, -, htoken⟩ := h
  exact ⟨row, hrow, htoken⟩

/-- What other clients do: none of them gives the row a token that is not its own. -/
structure Others (threadId token : String) (T T' : Table) : Prop where
  evolves : Evolves T T'
  spares : Holds threadId token T' → Holds threadId token T

theorem Others.refl (T : Table) : Others threadId token T T := ⟨.refl T, id⟩

theorem Others.trans (h : Others threadId token T T') (h' : Others threadId token T' T'') :
    Others threadId token T T'' :=
  ⟨h.evolves.trans h'.evolves, fun hT'' => h.spares (h'.spares hT'')⟩

def faults : RunOp → Bool
  | .call (.table o) _ a _ =>
    match o.failure a with
    | some (.other _) => true
    | _ => false
  | _ => false

def conflicts : RunOp → Bool
  | .call (.table (.update ..)) _ (.error .modified) _ => true
  | _ => false

/-- The rows that are read can be written back with this status and these values. -/
def ReadsFit (threadId : String) (status : ThreadStatus) (values : Option JsonObject)
    (u : List RunOp) : Prop :=
  ∀ T row T' T₁ now T₂, .call (.table (.get threadId)) T (.ok row) T' ∈ u →
    .call (.table .now) T₁ now T₂ ∈ u → ∃ entity,
      released row.entity now status (values.map JsonObject.toValue) = .ok entity ∧
        validateEntity entity = .ok ()

theorem ReadsFit.sub (h : ReadsFit threadId status values u) (hv : v ⊆ u) :
    ReadsFit threadId status values v :=
  fun T row T' T₁ now T₂ hread hnow => h T row T' T₁ now T₂ (hv hread) (hv hnow)

def LetsGo (threadId token : String) (status : ThreadStatus) (values : Option JsonObject) (n : Nat)
    (u : List RunOp) (T : Table) : Prop :=
  (∀ e ∈ u, faults e = false) → u.countP conflicts < n →
    ReadsFit threadId status values u → ¬ Holds threadId token T

def lifted : Event (EtagTable.interface Property) Table → RunOp
  | .env T T' => .env T T'
  | .call o T a T' => .call (.table o) T a T'

abbrev Led (me : Nat) (threadId token : String) (p : Wait α)
    (Φ : Except Exn α → Table → List RunOp → Prop) (T : Table) : Prop :=
  p.Traces (WaitRuns.service me) (Others threadId token) Φ T

theorem led_ofStore {p : AzureTable.Call α} {Φ : Except Exn α → Table → List RunOp → Prop}
    (h : p.Traces (EtagTable.service me) (Others threadId token)
      (fun r T' u => Φ r T' (u.map lifted)) T) : Led me threadId token (ofStore p) Φ T := by
  induction p generalizing Φ T with
  | ret a => exact h
  | raise e => exact h
  | call o k ih =>
    intro T₁ hT₁ a T₂ hs
    exact ih a (h T₁ hT₁ a T₂ hs)

theorem not_holds_released {entity : Entity} {now : Int} {row : Row}
    (h : released row.entity now status (values.map JsonObject.toValue) = .ok entity) :
    ¬ Holds threadId token (T.put threadId entity) := by
  rintro ⟨row', hrow', htoken⟩
  rw [row?_put, if_pos rfl] at hrow'
  cases hrow'
  rw [holdsToken_iff, get?_released_token h] at htoken
  cases htoken

theorem led_releaseAttempts (n : Nat) (hT : Stamped T) :
    (releaseAttempts threadId status (values.map JsonObject.toValue) (some token) n).Traces
      (EtagTable.service me) (Others threadId token)
      (fun _ T' u => LetsGo threadId token status values n (u.map lifted) T') T := by
  induction n generalizing T with
  | zero => exact fun _ h => absurd h (Nat.not_lt_zero _)
  | succ n ih =>
    intro T₁ hT₁ a T₂ hs
    cases a with
    | error f =>
      obtain ⟨ha, rfl⟩ := hs
      cases f with
      | notFound =>
        rintro - - - ⟨row, hrow, -⟩
        obtain ha | ⟨m, hm⟩ := ha
        · rw [Table.read, hrow] at ha
          cases ha
        · cases hm
      | other m =>
        intro hfaults
        have hfault := hfaults _ List.mem_cons_self
        cases hfault
      | _ =>
        obtain ha | ⟨m, hm⟩ := ha
        · rw [Table.read] at ha
          split at ha <;> cases ha
        · cases hm
    | ok row =>
      obtain ⟨rfl, hrow⟩ := step_get me hs
      change Prog.Traces _ _ (if isStale row.entity (some token) then _ else _) _ _
      split
      · next hstale =>
        refine Prog.traces_ofExcept ?_
        rintro - - - ⟨row', hrow', htoken⟩
        rw [hrow] at hrow'
        cases hrow'
        rw [isStale, htoken] at hstale
        cases hstale
      · intro T₃ hT₃ now T₄ hs₄
        have hE₄ : Evolves T₃ T₄ := step_evolves me (o := .now) hs₄
        refine Prog.traces_bind (Φ := fun r T' u => T₄ = T' ∧ u = [] ∧
          r = released row.entity now status (values.map JsonObject.toValue))
          (Prog.traces_ofExcept ⟨rfl, rfl, rfl⟩) ?_ ?_
        · rintro entity _ _ ⟨rfl, rfl, hentity⟩
          refine Prog.traces_bind (Φ := fun r T' u => T₄ = T' ∧ u = [] ∧
            r = validateEntity entity) (Prog.traces_ofExcept ⟨rfl, rfl, rfl⟩) ?_ ?_
          · rintro _ _ _ ⟨rfl, rfl, -⟩ T₅ hT₅ b T₆ hs₆
            have hseen := ((seen_of_row? (hT₁.evolves.stamped hT) hrow).evolves
              (hT₃.evolves.trans hE₄)).evolves hT₅.evolves
            have hT₆ := (step_evolves me (o := .update ..) hs₆).stamped (hT₅.evolves.stamped
              (hE₄.stamped (hT₃.evolves.stamped (hT₁.evolves.stamped hT))))
            cases b with
            | ok _ =>
              obtain ⟨-, rfl⟩ := hseen.update_ok me hs₆ rfl
              refine Prog.traces_ofExcept ?_
              exact fun _ _ _ => not_holds_released hentity.symm
            | error f =>
              cases f with
              | modified =>
                apply Prog.Traces.mono (ih hT₆)
                intro r T' u h hfaults hconflicts hfit
                have hsub (e₁ e₂ e₃ : RunOp) : u.map lifted ⊆ e₁ :: e₂ :: e₃ :: u.map lifted :=
                  fun e he => List.mem_cons_of_mem _ (List.mem_cons_of_mem _
                    (List.mem_cons_of_mem _ he))
                refine h (fun e he => hfaults e (hsub _ _ _ he)) ?_ (hfit.sub (hsub _ _ _))
                simpa [List.countP_cons, lifted, conflicts] using hconflicts
              | other m =>
                intro hfaults
                have hfault := hfaults _
                  (List.mem_cons_of_mem _ (List.mem_cons_of_mem _ List.mem_cons_self))
                cases hfault
              | notFound =>
                obtain hs₆ | ⟨⟨m, hm⟩, -⟩ := hs₆
                · obtain ⟨rfl, ⟨-, hnone⟩ | ⟨h, -⟩⟩ := update_error hs₆
                  · rintro - - - ⟨row', hrow', -⟩
                    rw [hnone] at hrow'
                    cases hrow'
                  · cases h
                · cases hm
              | «exists» =>
                obtain hs₆ | ⟨⟨m, hm⟩, -⟩ := hs₆
                · obtain ⟨-, ⟨h, -⟩ | ⟨h, -⟩⟩ := update_error hs₆ <;> cases h
                · cases hm
          · rintro e _ _ ⟨rfl, rfl, hinvalid⟩ - - hfit
            obtain ⟨entity', hentity', hvalid⟩ := hfit _ _ _ _ _ _ List.mem_cons_self
              (List.mem_cons_of_mem _ List.mem_cons_self)
            rw [← hentity] at hentity'
            cases hentity'
            rw [hvalid] at hinvalid
            cases hinvalid
        · rintro e _ _ ⟨rfl, rfl, hrefused⟩ - - hfit
          obtain ⟨entity', hentity', -⟩ := hfit _ _ _ _ _ _ List.mem_cons_self
            (List.mem_cons_of_mem _ List.mem_cons_self)
          rw [hentity'] at hrefused
          cases hrefused

variable {φ : Api.Op → Prop}

theorem led_bind {p : Api α} {f : α → Api β} {Φ : Except Exn α → Table → List RunOp → Prop}
    {Θ : Except Exn β → Table → List RunOp → Prop} (h : Led me threadId token (ofApi p) Φ T)
    (hok : ∀ a T' u, Φ (.ok a) T' u →
      Led me threadId token (ofApi (f a)) (fun r T'' v => Θ r T'' (u ++ v)) T')
    (herror : ∀ e T' u, Φ (.error e) T' u → Θ (.error e) T' u) :
    Led me threadId token (ofApi (p.bind f)) Θ T := by
  rw [ofApi_bind]
  exact Prog.traces_bind h hok herror

theorem LetsGo.after {n : Nat} (h : LetsGo threadId token status values n u T)
    (hT : Others threadId token T T') (v : List RunOp) :
    LetsGo threadId token status values n (u ++ v) T' := by
  intro hfaults hconflicts hfit hholds
  rw [List.countP_append] at hconflicts
  exact h (fun e he => hfaults e (List.mem_append_left v he))
    (Nat.lt_of_le_of_lt (Nat.le_add_right _ _) hconflicts)
    (hfit.sub (List.subset_append_left u v)) (hT.spares hholds)

theorem led_release {ownerToken : String} (hstatus : status ≠ .busy) (hT : Stamped T) :
    Led me threadId token (ofOp (.releaseRunLock threadId status values ownerToken))
      (fun r T' u => (∃ answer, r = .ok answer) ∧ Stamped T' ∧ (∀ e ∈ u, Only (fun _ => False) e) ∧
        (ownerToken = token → LetsGo threadId token status values 3 u T')) T := by
  have hgoes : Led me threadId token (ofOp (.releaseRunLock threadId status values ownerToken))
      (fun r T' u => (∃ answer, r = .ok answer) ∧
        (ownerToken = token → LetsGo threadId token status values 3 u T')) T := by
    apply Prog.traces_attempt (Φ := fun _ T' u =>
      ownerToken = token → LetsGo threadId token status values 3 u T')
    · apply led_ofStore
      rw [AzureTable.releaseRunLock, if_neg hstatus]
      by_cases howner : ownerToken = token
      · subst howner
        exact Prog.Traces.mono (led_releaseAttempts 3 hT) fun _ _ _ h _ => h
      · exact Prog.traces_of_all _ fun _ _ _ h => absurd h howner
    · exact fun r _ _ h => ⟨⟨r, rfl⟩, h⟩
  have hplain : Led me threadId token (ofOp (.releaseRunLock threadId status values ownerToken))
      (Plain fun _ => False) T := plain_ofStore (fun _ _ h => h.evolves) _ hT
  exact Prog.Traces.mono (hplain.and hgoes) fun _ _ _ h => ⟨h.2.1, h.1.1, h.1.2, h.2.2⟩

def unlocks : RunOp → List (String × String × String)
  | .call (.server (.release graphName threadId lockToken)) .. => [(graphName, threadId, lockToken)]
  | _ => []

theorem unlocks_of_only (h : ∀ e ∈ u, Only φ e) (hφ : ∀ g i l, ¬ φ (.release g i l)) :
    u.flatMap unlocks = [] := by
  rw [List.flatMap_eq_nil_iff]
  intro e he
  have honly := h e he
  cases e with
  | env => rfl
  | call o =>
    cases o with
    | table o => rfl
    | server o => cases o <;> first | rfl | exact absurd honly (hφ _ _ _)
    | observe event => rfl

theorem stops_of_only (h : ∀ e ∈ u, Only KeepsRenewal e) (token : String) :
    u.any (stops token) = false :=
  any_eq_false fun e he => (h e he).quiet.not_stops token

/-- The release of both locks, from where the renewal is stopped. -/
inductive Freed (threadId token graphName lockToken : String) (status : ThreadStatus)
    (values : Option JsonObject) (T : Table) : List RunOp → Prop
  | mk {ownerToken : String} {a : Option Exn} {T₁ T₂ : Table} {v : List RunOp} :
      (∀ e ∈ v, Only KeepsRenewal e) → v.flatMap unlocks = [(graphName, threadId, lockToken)] →
      (ownerToken = token → LetsGo threadId token (if a.isSome then .error else status)
        (if a.isSome then none else values) 3 v T) →
      Freed threadId token graphName lockToken status values T
        (.call (.server (.stopStoreRenewal ownerToken)) T₁ a T₂ :: v)

theorem led_releaseThreadRunLock {ownerToken : String} (hstatus : status ≠ .busy)
    (howner : (if ownerToken = "" then lockToken else ownerToken) = ownerToken) (hT : Stamped T) :
    Led me threadId token
      (ofApi (releaseThreadRunLock threadId graphName lockToken status values ownerToken))
      (fun r T' u => (∃ failure, r = .ok failure) ∧
        Freed threadId token graphName lockToken status values T' u) T := by
  rintro T₁ hT₁ a _ rfl
  rw [howner]
  have hstatus' : (if a.isSome then ThreadStatus.error else status) ≠ .busy := by
    split
    · simp
    · exact hstatus
  apply Prog.traces_bind (led_release hstatus' (hT₁.evolves.stamped hT))
  · rintro answer T₂ u ⟨-, hT₂, honly, hgoes⟩ T₃ hT₃ b _ rfl
    have honly' (T T' : Table) (b : Except Exn Unit) : ∀ e ∈ u ++ [.call
        (.server (.release graphName threadId lockToken)) T b T'], Only KeepsRenewal e :=
      List.forall_mem_append.mpr ⟨fun e he => (honly e he).mono fun _ h => h.elim,
        List.forall_mem_singleton.mpr trivial⟩
    have hunlocks : u.flatMap unlocks = [] := unlocks_of_only honly fun _ _ _ h => h
    cases b with
    | ok _ =>
      refine ⟨⟨_, rfl⟩, .mk (honly' _ _ _) ?_ fun h => (hgoes h).after hT₃ _⟩
      rw [List.flatMap_append, hunlocks]
      rfl
    | error exc =>
      refine ⟨⟨_, rfl⟩, .mk (honly' _ _ _) ?_ fun h => (hgoes h).after hT₃ _⟩
      rw [List.flatMap_append, hunlocks]
      rfl
  · rintro e T₂ u ⟨⟨_, ⟨⟩⟩, -⟩
/-- Neither lock is given back, and the renewal goes on. -/
def Keeps : Api.Op → Prop
  | .stopStoreRenewal _ => False
  | .release .. => False
  | _ => True

def Prepares : Api.Op → Prop
  | .invoke => False
  | o => Keeps o

theorem Prepares.keeps {o : Api.Op} (h : Prepares o) : Keeps o := by
  cases o <;> trivial

theorem not_invoked_of_only (h : ∀ e ∈ u, Only Prepares e) : ∀ e ∈ u, ¬ Invoked e := by
  rintro e he ⟨⟩
  exact h _ he

/-- What the release is asked to write: the output of the graph, unless the renewal reports a loss,
or no values. -/
inductive Asked (u : List RunOp) (a : Option Exn) : ThreadStatus → Option JsonObject → Prop
  | output {T T' : Table} {output : JsonObject} : a = none →
      .call (.server .invoke) T (.ok output) T' ∈ u → Asked u a .idle (some output)
  | plain {status : ThreadStatus} : status ≠ .busy → (a = none → ∀ e ∈ u, ¬ Invoked e) →
      Asked u a status none

/-- From where both locks are held to the end. -/
inductive Course (threadId token graphName lockToken : String) (T : Table) : List RunOp → Prop
  | mk {u v : List RunOp} {ownerToken : String} {a : Option Exn} {T₁ T₂ : Table}
      {status : ThreadStatus} {values : Option JsonObject} : (∀ e ∈ u, Only Keeps e) →
      Asked u a status values → (∀ e ∈ v, Only KeepsRenewal e) →
      v.flatMap unlocks = [(graphName, threadId, lockToken)] →
      (ownerToken = token → LetsGo threadId token status values 3 v T) →
      Course threadId token graphName lockToken T
        (u ++ .call (.server (.stopStoreRenewal ownerToken)) T₁ a T₂ :: v)

theorem Course.after (hu : ∀ e ∈ u, Only Prepares e)
    (h : Course threadId token graphName lockToken T v) :
    Course threadId token graphName lockToken T (u ++ v) := by
  cases h with
  | mk hkeeps hasked hv hunlocks hgoes =>
    rw [← List.append_assoc]
    refine .mk (List.forall_mem_append.mpr ⟨fun e he => (hu e he).mono fun _ h => h.keeps, hkeeps⟩)
      ?_ hv hunlocks hgoes
    cases hasked with
    | output ha hmem => exact .output ha (List.mem_append_right u hmem)
    | plain hstatus hnone =>
      exact .plain hstatus fun ha =>
        List.forall_mem_append.mpr ⟨not_invoked_of_only hu, hnone ha⟩

theorem Freed.error (h : Freed threadId token graphName lockToken .error none T v)
    (hu : ∀ e ∈ u, Only Keeps e) (hnone : ∀ e ∈ u, ¬ Invoked e) :
    Course threadId token graphName lockToken T (u ++ v) := by
  cases h with
  | mk hv hunlocks hgoes =>
    rw [ite_self, ite_self] at hgoes
    exact .mk hu (.plain (by decide) fun _ => hnone) hv hunlocks hgoes

theorem Freed.plain {status : ThreadStatus} (hstatus : status ≠ .busy)
    (h : Freed threadId token graphName lockToken status none T v)
    (hu : ∀ e ∈ u, Only Prepares e) : Course threadId token graphName lockToken T (u ++ v) := by
  cases h with
  | mk hv hunlocks hgoes =>
    rw [ite_self] at hgoes
    refine .mk (fun e he => (hu e he).mono fun _ h => h.keeps)
      (.plain ?_ fun _ => not_invoked_of_only hu) hv hunlocks hgoes
    split
    · decide
    · exact hstatus

theorem Freed.output {T₁ T₂ : Table} {output : JsonObject}
    (h : Freed threadId token graphName lockToken .idle (some output) T v)
    (hu : ∀ e ∈ u, Only Keeps e) (hinvoked : .call (.server .invoke) T₁ (.ok output) T₂ ∈ u) :
    Course threadId token graphName lockToken T (u ++ v) := by
  cases h with
  | @mk _ a _ _ _ hv hunlocks hgoes =>
    cases a with
    | none => exact .mk hu (.output rfl hinvoked) hv hunlocks hgoes
    | some exc =>
      exact .mk hu (.plain (by simp) fun h => (by cases h)) hv hunlocks hgoes

abbrev Ends (me : Nat) (threadId token graphName lockToken : String) (p : Api α) (T : Table) :
    Prop :=
  Led me threadId token (ofApi p) (fun _ T' u => Course threadId token graphName lockToken T' u) T

variable {ownerToken : String} {thread : Thread} {run : RunCreate}

theorem plain_prepareRun (hT : Stamped T) : Led me threadId token
    (ofApi (prepareRun threadId graphName lockToken ownerToken thread run)) (Plain Prepares) T :=
  plain_ofApi (fun _ _ h => h.evolves) (Api.always_prepareRun trivial trivial fun _ => trivial) hT

theorem led_tryInvoke (hT : Stamped T) : Led me threadId token
    (ofApi ((prepareRun threadId graphName lockToken ownerToken thread run).bind fun _ =>
      (Api.perform .invoke).bind .ofExcept))
    (fun r T' u => Stamped T' ∧ (∀ e ∈ u, Only Keeps e) ∧ (∀ output, r = .ok output →
      ∃ T₁ T₂, .call (.server .invoke) T₁ (.ok output) T₂ ∈ u) ∧
      ∀ exc, r = .error exc → ∀ e ∈ u, ¬ Invoked e) T := by
  apply led_bind (plain_prepareRun hT)
  · rintro _ T₁ u ⟨hT₁, hu⟩ _ hT₂ answer T₂ rfl
    have hkeeps : ∀ e ∈ u ++ [.call (.server .invoke) T₂ answer T₂], Only Keeps e :=
      List.forall_mem_append.mpr ⟨fun e he => (hu e he).mono fun _ h => h.keeps,
        List.forall_mem_singleton.mpr trivial⟩
    cases answer with
    | ok output =>
      refine ⟨hT₂.evolves.stamped hT₁, hkeeps, ?_, fun _ h => (by cases h)⟩
      rintro _ ⟨⟩
      exact ⟨T₂, T₂, List.mem_append_right u List.mem_cons_self⟩
    | error exc =>
      refine ⟨hT₂.evolves.stamped hT₁, hkeeps, fun _ h => (by cases h), ?_⟩
      rintro _ -
      refine List.forall_mem_append.mpr ⟨not_invoked_of_only hu, List.forall_mem_singleton.mpr ?_⟩
      rintro ⟨⟩
  · rintro e T₁ u ⟨hT₁, hu⟩
    refine ⟨hT₁, fun e he => (hu e he).mono fun _ h => h.keeps, fun _ h => (by cases h), ?_⟩
    exact fun _ _ => not_invoked_of_only hu

theorem ends_released {f : Option Exn → Api β} {Θ : Table → List RunOp → Prop}
    (hstatus : status ≠ .busy)
    (howner : (if ownerToken = "" then lockToken else ownerToken) = ownerToken) (hT : Stamped T)
    (hf : ∀ failure, ∃ response, f failure = .ret response)
    (hΘ : ∀ T' v, Freed threadId token graphName lockToken status values T' v → Θ T' v) :
    Led me threadId token (ofApi
      ((releaseThreadRunLock threadId graphName lockToken status values ownerToken).bind f))
      (fun _ T' v => Θ T' v) T := by
  apply led_bind (led_releaseThreadRunLock hstatus howner hT)
  · rintro failure T₁ v ⟨-, hfreed⟩
    obtain ⟨response, hresponse⟩ := hf failure
    rw [hresponse]
    change Θ T₁ (v ++ [])
    rw [List.append_nil]
    exact hΘ T₁ v hfreed
  · exact fun e T₁ v h => hΘ T₁ v h.2

theorem ends_waitLocked
    (howner : (if ownerToken = "" then lockToken else ownerToken) = ownerToken) (hT : Stamped T) :
    Ends me threadId token graphName lockToken
      (waitLocked threadId graphName lockToken ownerToken thread run) T := by
  have htry : Led me threadId token (ofApi ((prepareRun threadId graphName lockToken ownerToken
      thread run).bind fun _ => (Api.perform .invoke).bind .ofExcept).attempt)
      (fun r T' u => ∃ outcome, r = .ok outcome ∧ Stamped T' ∧ (∀ e ∈ u, Only Keeps e) ∧
        (∀ output, outcome = .ok output →
          ∃ T₁ T₂, .call (.server .invoke) T₁ (.ok output) T₂ ∈ u) ∧
        ∀ exc, outcome = .error exc → ∀ e ∈ u, ¬ Invoked e) T := by
    rw [ofApi_attempt]
    exact Prog.traces_attempt (led_tryInvoke hT) fun r _ _ h => ⟨r, rfl, h⟩
  apply led_bind htry
  · rintro outcome T₁ u ⟨_, ⟨⟩, hT₁, hu, hok, herror⟩
    cases outcome with
    | error exc =>
      apply ends_released (by decide) howner hT₁ fun failure => ⟨_, rfl⟩
      exact fun T₂ v h => h.error hu (herror exc rfl)
    | ok output =>
      obtain ⟨T₂, T₃, hinvoked⟩ := hok output rfl
      apply ends_released (by decide) howner hT₁ fun failure => by cases failure <;> exact ⟨_, rfl⟩
      exact fun T₂ v h => h.output hu hinvoked
  · rintro e T₁ u ⟨_, ⟨⟩, -⟩

theorem ends_streamLocked
    (howner : (if ownerToken = "" then lockToken else ownerToken) = ownerToken) (hT : Stamped T) :
    Ends me threadId token graphName lockToken
      (streamLocked threadId graphName lockToken ownerToken thread run) T := by
  have hfailed {T₁ : Table} {u : List RunOp} (hT₁ : Stamped T₁) (hu : ∀ e ∈ u, Only Prepares e) :
      Led me threadId token
        (ofApi (streamLocked.failed threadId graphName lockToken ownerToken run))
        (fun _ T' v => Course threadId token graphName lockToken T' (u ++ v)) T₁ := by
    apply ends_released (by decide) howner hT₁ fun failure => ⟨_, rfl⟩
    exact fun T₂ v h => h.plain (by decide) hu
  have htry : Led me threadId token (ofApi (prepareRun threadId graphName lockToken ownerToken
      thread run).attempt)
      (fun r T' u => (∃ outcome, r = .ok outcome) ∧ Plain Prepares r T' u) T := by
    rw [ofApi_attempt]
    exact Prog.traces_attempt (plain_prepareRun hT) fun r _ _ h => ⟨⟨r, rfl⟩, h⟩
  apply led_bind htry
  · rintro prepared T₁ u ⟨-, hT₁, hu⟩
    cases prepared with
    | error exc => exact hfailed hT₁ hu
    | ok _ =>
      rintro _ hT₂ answer T₂ rfl
      have hT₃ := hT₂.evolves.stamped hT₁
      have hu' : ∀ e ∈ u ++ [.call (.server .stream) T₂ answer T₂], Only Prepares e :=
        List.forall_mem_append.mpr ⟨hu, List.forall_mem_singleton.mpr trivial⟩
      refine Prog.Traces.mono (Φ := fun _ T' v => Course threadId token graphName lockToken T'
        (u ++ [.call (.server .stream) T₂ answer T₂] ++ v)) ?_ fun r T' v h => by
          rwa [List.append_assoc] at h
      obtain ⟨chunks, finished⟩ := answer
      cases finished with
      | ok finished =>
        have hstatus : (if finished then ThreadStatus.idle else .error) ≠ .busy := by
          cases finished <;> decide
        apply ends_released hstatus howner hT₃ fun failure => by cases failure <;> exact ⟨_, rfl⟩
        exact fun T₃ v h => h.plain hstatus hu'
      | error exc =>
        change Led _ _ _ (ofApi (if _ then _ else _)) _ _
        split
        · exact hfailed hT₃ hu'
        · apply ends_released (by decide) howner hT₃ fun failure => by
            cases failure <;> exact ⟨_, rfl⟩
          exact fun T₃ v h => h.plain (by decide) hu'
  · rintro e T₁ u ⟨⟨_, ⟨⟩⟩, -⟩
theorem Prepares.keepsRenewal {o : Api.Op} (h : Prepares o) : KeepsRenewal o := by
  cases o <;> trivial

theorem led_lockedRun {endpoint : RunEndpoint} (hT : Stamped T) : Led me threadId token
    (ofApi (lockedRun endpoint threadId graphName lockToken thread run))
    (fun _ T' u => (∀ e ∈ u, Only KeepsRenewal e) ∨
      Course threadId token graphName lockToken T' u) T := by
  apply led_bind (plain_ofApi (fun _ _ h => h.evolves) (φ := Prepares)
    (Api.always_perform (o := .tryAcquireRunLock threadId run.assistantId) trivial) hT)
  · rintro answer T₁ u ⟨hT₁, hu⟩
    have hearly {p : Api Api.Response} (h : Api.Always KeepsRenewal p) :
        Led me threadId token (ofApi p) (fun _ T' v => (∀ e ∈ u ++ v, Only KeepsRenewal e) ∨
          Course threadId token graphName lockToken T' (u ++ v)) T₁ := by
      apply Prog.Traces.mono (plain_ofApi (fun _ _ h => h.evolves) h hT₁)
      rintro r T' v ⟨-, hv⟩
      refine .inl (List.forall_mem_append.mpr ⟨fun e he => ?_, hv⟩)
      exact (hu e he).mono fun _ h => h.keepsRenewal
    cases answer with
    | error exc =>
      refine hearly (Api.always_bind (Api.always_call trivial) fun _ => ?_)
      split
      · trivial
      · split
        · exact Api.always_bind (Api.always_ofExcept _) fun _ => trivial
        · trivial
    | ok locked =>
      cases locked with
      | none => exact hearly (Api.always_bind (Api.always_call trivial) fun _ => trivial)
      | some locked =>
        have howner := ownerOf_eq lockToken locked.lockToken
        cases endpoint with
        | wait =>
          apply Prog.Traces.mono (ends_waitLocked howner hT₁)
          exact fun r T' v h => .inr (h.after hu)
        | stream =>
          apply Prog.Traces.mono (ends_streamLocked howner hT₁)
          exact fun r T' v h => .inr (h.after hu)
  · rintro e T₁ u ⟨-, hu⟩
    exact .inl fun e he => (hu e he).mono fun _ h => h.keepsRenewal

inductive Life (threadId token : String) (T : Table) : List RunOp → Prop
  | quiet {u : List RunOp} : (∀ e ∈ u, Only KeepsRenewal e) → Life threadId token T u
  | locked {u : List RunOp} {T₁ T₂ : Table} {graphName lockToken : String} :
      .call (.server (.acquire graphName threadId)) T₁ (.ok (some lockToken)) T₂ ∈ u →
      Course threadId token graphName lockToken T u → Life threadId token T u

theorem Life.after (hu : ∀ e ∈ u, Only Prepares e) (h : Life threadId token T v) :
    Life threadId token T (u ++ v) := by
  cases h with
  | quiet hv =>
    refine .quiet (List.forall_mem_append.mpr ⟨fun e he => ?_, hv⟩)
    exact (hu e he).mono fun _ h => h.keepsRenewal
  | locked hmem hcourse => exact .locked (List.mem_append_right u hmem) (hcourse.after hu)

theorem led_runs {endpoint : RunEndpoint} {body : Except Api.Response RunCreate}
    {resolve : RunCreate → Except Api.Response String} (hT : Stamped T) :
    Led me threadId token (ofApi (runs endpoint threadId body resolve))
      (fun _ T' u => Life threadId token T' u) T := by
  cases body with
  | error response => exact .quiet (List.forall_mem_nil _)
  | ok run =>
    apply led_bind (plain_ofApi (fun _ _ h => h.evolves) (φ := Prepares)
      (Api.always_call (o := .get threadId) trivial) hT)
    · rintro thread T₁ u ⟨hT₁, hu⟩
      refine Prog.Traces.mono (Φ := fun _ T' v => Life threadId token T' v) ?_
        fun r T' v h => h.after hu
      cases thread with
      | none => exact .quiet (List.forall_mem_nil _)
      | some thread =>
        change Led me threadId token (ofApi (foundRun endpoint threadId thread run resolve)) _ T₁
        rw [foundRun]
        cases resolve run with
        | error response => exact .quiet (List.forall_mem_nil _)
        | ok graphName =>
          rintro _ hT₂ answer T₂ rfl
          cases answer with
          | error exc => exact .quiet (List.forall_mem_singleton.mpr trivial)
          | ok lockToken =>
            cases lockToken with
            | none => exact .quiet (List.forall_mem_singleton.mpr trivial)
            | some lockToken =>
              apply Prog.Traces.mono (led_lockedRun (hT₂.evolves.stamped hT₁))
              rintro r T' v (hv | hcourse)
              · exact .quiet (List.forall_mem_cons.mpr ⟨trivial, hv⟩)
              · refine .locked List.mem_cons_self (hcourse.after (u := [_]) ?_)
                exact List.forall_mem_singleton.mpr trivial
    · rintro e T₁ u ⟨-, hu⟩
      exact .quiet fun e he => (hu e he).mono fun _ h => h.keepsRenewal

/-- The service answers, and the release meets fewer than three conflicts. -/
structure Smooth (t : List RunOp) : Prop where
  answered : ∀ e ∈ t, faults e = false
  settled : ∀ u v token a T T', t = u ++ .call (.server (.stopStoreRenewal token)) T a T' :: v →
    v.countP conflicts < 3

/-- Each row that the release reads can be written back with what the release is asked to write. -/
def Fits (threadId : String) (t : List RunOp) : Prop :=
  ∀ u v token a T T' status values,
    t = u ++ .call (.server (.stopStoreRenewal token)) T a T' :: v → Asked u a status values →
      ReadsFit threadId status values v

/-- The row is not busy under the token, and the lock of the thread was given back once. -/
structure Returned (threadId token : String) (t : List RunOp) (T : Table) : Prop where
  row : ¬ HeldBy threadId token T
  lock : ∃ graphName lockToken T₁ T₂,
    .call (.server (.acquire graphName threadId)) T₁ (.ok (some lockToken)) T₂ ∈ t ∧
      t.flatMap unlocks = [(graphName, threadId, lockToken)]

theorem Life.returned (h : Life threadId token T t) (hstops : t.any (stops token))
    (hsmooth : Smooth t) (hfits : Fits threadId t) : Returned threadId token t T := by
  cases h with
  | quiet hu =>
    rw [stops_of_only hu] at hstops
    cases hstops
  | locked hmem hcourse =>
    cases hcourse with
    | @mk u v ownerToken a T₁ T₂ status values hu hasked hv hunlocks hgoes =>
      have hu' : ∀ e ∈ u, Only KeepsRenewal e := fun e he =>
        (hu e he).mono fun o h => by cases o <;> trivial
      rw [List.any_append, List.any_cons, stops_of_only hu', stops_of_only hv, Bool.or_false,
        Bool.false_or, stops, beq_iff_eq] at hstops
      constructor
      · intro hheld
        refine hgoes hstops (fun e he => ?_) (hsmooth.settled _ _ _ _ _ _ rfl)
          (hfits _ _ _ _ _ _ _ _ rfl hasked) (HeldBy.holds hheld)
        exact hsmooth.answered e (List.mem_append_right u (List.mem_cons_of_mem _ he))
      · refine ⟨_, _, _, _, hmem, ?_⟩
        rw [List.flatMap_append, List.flatMap_cons, hunlocks,
          unlocks_of_only hu fun _ _ _ h => h]
        rfl

def oneWait : Wait Api.Response :=
  ofApi (runs .wait "u" (.ok ⟨"r", "a", none⟩) fun _ => .ok "g")

def played (output : JsonObject) : List RunOp × Except Exn Api.Response × Table :=
  oneWait.playOut (acts output) (fun _ T => T) oneThread

theorem exec_played (output : JsonObject) : Exec (WaitRuns.service 0) (Others "u" "uu") oneWait
    oneThread (played output).1 (.ofExcept (played output).2.1) (played output).2.2 :=
  exec_playOut (acts_step output) (fun _ T => .refl T) oneWait oneThread

theorem smooth_of_all (hfaults : t.any faults = false) (hconflicts : t.any conflicts = false) :
    Smooth t where
  answered := by simpa using hfaults
  settled := by
    rintro u v token a T T' rfl
    rw [List.any_append, List.any_cons, Bool.or_eq_false_iff, Bool.or_eq_false_iff] at hconflicts
    rw [List.countP_eq_zero.mpr]
    · decide
    · simpa using hconflicts.2.2

def notANumber : JsonObject := Dict.ofList [(.str "x", .float .nan)]

def fits (now : Int) : RunOp → Bool
  | .call (.table (.get _)) _ (.ok row) _ =>
    [ThreadStatus.idle, .interrupted, .error].all fun status =>
      [none, some ∅].all fun values =>
        match (released row.entity now status (values.map JsonObject.toValue)).bind
          validateEntity with
        | .ok _ => true
        | .error _ => false
  | _ => true

def fitsAt (t : List RunOp) : RunOp → Bool
  | .call (.table .now) _ now _ => t.all (fits now)
  | _ => true

theorem readsFit_of_fits (h : t.all (fitsAt t)) (hu : u ⊆ t) (hstatus : status ≠ .busy)
    (hvalues : values = none ∨ values = some ∅) : ReadsFit threadId status values u := by
  intro T row T' T₁ now T₂ hread hnow
  have hvalues' : values ∈ [none, some (∅ : JsonObject)] := by
    rcases hvalues with rfl | rfl <;> simp
  have hnow' := List.all_eq_true.mp h _ (hu hnow)
  have hrow := List.all_eq_true.mp hnow' _ (hu hread)
  have hfit := List.all_eq_true.mp (List.all_eq_true.mp hrow status
    (by cases status <;> simp at hstatus ⊢)) values hvalues'
  cases hreleased : released row.entity now status (values.map JsonObject.toValue) with
  | error exc =>
    rw [hreleased] at hfit
    cases hfit
  | ok entity =>
    cases hvalid : validateEntity entity with
    | ok _ => exact ⟨entity, rfl, hvalid⟩
    | error exc =>
      rw [hreleased] at hfit
      change (match validateEntity entity with
        | .ok _ => true
        | .error _ => false) = true at hfit
      rw [hvalid] at hfit
      cases hfit

def answersEmpty : RunOp → Bool
  | .call (.server .invoke) _ (.ok output) _ => output.items.isEmpty
  | _ => true

theorem fits_of_all (hfits : t.all (fitsAt t)) (hempty : t.all answersEmpty) :
    Fits threadId t := by
  rintro u v token a T T' status values rfl hasked
  have hsub : v ⊆ u ++ .call (.server (.stopStoreRenewal token)) T a T' :: v :=
    fun e he => List.mem_append_right u (List.mem_cons_of_mem _ he)
  cases hasked with
  | plain hstatus => exact readsFit_of_fits hfits hsub hstatus (.inl rfl)
  | @output _ _ output _ hinvoked =>
    have hitems := List.all_eq_true.mp hempty _ (List.mem_append_left _ hinvoked)
    have hnone : output = ∅ := Dict.ext (List.isEmpty_iff.mp hitems)
    exact readsFit_of_fits hfits hsub (by decide) (.inr (congrArg some hnone))

end LangGraphFunctions.Platform.RunReleases
