import LangGraphFunctions.Lib.Holders
import LangGraphFunctions.Locks.InProcess

/-! Exclusion and registry hygiene of the in-process lock, over every interleaving. -/

namespace LangGraphFunctions.Locks.InProcess

open Lib

variable {ι : Type} {timeoutMax : Rat}

abbrev Threads (ι : Type) := Pool interface Exn (Option String) Registry ι Request
abbrev LockEvent (ι : Type) := Pool.Event interface Exn (Option String) Registry ι Request

structure LockRun [DecidableEq ι] (timeoutMax : Rat) (t : List (LockEvent ι)) (P : Threads ι) :
    Prop where
  runs : Pool.Runs (fun _ _ => service) (Request.program timeoutMax) (fun _ _ _ => True)
    (Pool.idle Registry.empty) t P
  finished : ∀ e ∈ t, e.Finished

def Timeout.Accepted (timeoutMax : Rat) (timeout : Timeout) : Prop :=
  timeout.positive → timeout.exceeds timeoutMax = false

/-- An acquire that starts here asks for a time that a primitive lock can wait. -/
def Waits (timeoutMax : Rat) : LockEvent ι → Prop
  | .start _ (.acquire _ timeout) _ => timeout.Accepted timeoutMax
  | _ => True

def Returns (key : Key) (token : String) : LockEvent ι → Prop
  | .op _ (.acquire key' _) (.publish _ token') _ _ _ => key' = key ∧ token' = token
  | _ => False

def Releases (key : Key) (token : String) : LockEvent ι → Prop
  | .op _ _ (.release key' token') _ _ _ => key' = key ∧ token' = token
  | _ => False

def Outstanding (key : Key) (token : String) (t : List (LockEvent ι)) : Prop :=
  ∃ t₁ e t₂, t = t₁ ++ e :: t₂ ∧ Returns key token e ∧ ∀ e' ∈ t₂, ¬Releases key token e'

def contend (key : Key) (waits : Bool) (state : Nat) : Call (Option String) := do
  let acquired ← perform (.lockAcquire state waits)
  if !acquired then giveBack key state
  else own state

theorem attempt_eq {timeout : Timeout} (h : timeout.Accepted timeoutMax) (key : Key) (state : Nat) :
    attempt timeoutMax key timeout state = contend key timeout.positive state := by
  rw [attempt, lockAcquire]
  cases hpositive : timeout.positive with
  | false => rfl
  | true =>
    rw [if_pos rfl, h hpositive]
    rfl

inductive Stage
  | begun (key : Key) (timeout : Timeout)
  | reserved (key : Key) (timeout : Timeout) (state : Nat)
  | failed (key : Key) (timeout : Timeout) (state : Nat)
  | owner (key : Key) (timeout : Timeout) (state : Nat)
  | named (key : Key) (timeout : Timeout) (state : Nat) (token : String)
  | returned (request : Request) (result : Option String)
  | releasing (key : Key) (token : String)

namespace Stage

def call : Stage → Request × Call (Option String)
  | begun key timeout =>
    (.acquire key timeout, perform (.reserve key) >>= contend key timeout.positive)
  | reserved key timeout state => (.acquire key timeout, contend key timeout.positive state)
  | failed key timeout state => (.acquire key timeout, giveBack key state)
  | owner key timeout state => (.acquire key timeout, own state)
  | named key timeout state token => (.acquire key timeout, handOut state token)
  | returned request result => (request, .ret result)
  | releasing key token => (.release key token, release key token)

def reserves (key : Key) (state : Nat) : Stage → Bool
  | reserved key' _ state' => key' = key ∧ state' = state
  | failed key' _ state' => key' = key ∧ state' = state
  | owner key' _ state' => key' = key ∧ state' = state
  | named key' _ state' _ => key' = key ∧ state' = state
  | _ => false

def owns (key : Key) (state : Nat) : Stage → Bool
  | owner key' _ state' => key' = key ∧ state' = state
  | named key' _ state' _ => key' = key ∧ state' = state
  | _ => false

theorem reserves_of_owns {stage : Stage} {key : Key} {state : Nat} (h : stage.owns key state) :
    stage.reserves key state := by
  cases stage with
  | owner _ _ _ => exact h
  | named _ _ _ _ => exact h
  | _ => exact nomatch h

theorem call_program {i : ι} {q : Request} {G : Registry}
    (h : Waits timeoutMax (.start i q G : LockEvent ι)) :
    ∃ stage : Stage, stage.call = (q, q.program timeoutMax) ∧
      ∀ key state, stage.reserves key state = false ∧ stage.owns key state = false := by
  cases q with
  | acquire key timeout =>
    refine ⟨.begun key timeout, ?_, fun _ _ => ⟨rfl, rfl⟩⟩
    rw [call, Request.program, acquire, funext fun state => attempt_eq h key state]
  | release key token => exact ⟨.releasing key token, rfl, fun _ _ => ⟨rfl, rfl⟩⟩

def ofCall : Request × Call (Option String) → Option Stage
  | (request, .ret result) => some (.returned request result)
  | (.acquire key timeout, .call (.reserve _) _) => some (.begun key timeout)
  | (.acquire key timeout, .call (.lockAcquire state _) _) => some (.reserved key timeout state)
  | (.acquire key timeout, .call (.unreserve _ state) _) => some (.failed key timeout state)
  | (.acquire key timeout, .call .tokenHex k) =>
    match k "" with
    | .call (.publish state _) _ => some (.owner key timeout state)
    | _ => none
  | (.acquire key timeout, .call (.publish state token) _) => some (.named key timeout state token)
  | (.release key token, .call _ _) => some (.releasing key token)
  | _ => none

theorem ofCall_call (stage : Stage) : ofCall stage.call = some stage := by
  cases stage <;> rfl

theorem call_injective : Function.Injective call := fun a b h => by
  rw [← Option.some_inj, ← ofCall_call a, h, ofCall_call]

end Stage

def InFlight (P : Threads ι) (key : Key) (state : Nat) : Set ι :=
  {i | ∃ stage : Stage, P.clients i = some stage.call ∧ stage.reserves key state}

theorem outstanding_append {key : Key} {token : String} {t : List (LockEvent ι)} {e : LockEvent ι} :
    Outstanding key token (t ++ [e]) ↔
      Returns key token e ∨ Outstanding key token t ∧ ¬Releases key token e := by
  constructor
  · rintro ⟨t₁, e', t₂, ht, hreturns, hreleases⟩
    obtain rfl | ⟨t₃, x, rfl⟩ := List.eq_nil_or_concat t₂
    · rw [List.append_singleton_inj] at ht
      exact .inl (ht.2 ▸ hreturns)
    · rw [List.concat_eq_append, ← List.cons_append, ← List.append_assoc,
        List.append_singleton_inj] at ht
      obtain ⟨rfl, rfl⟩ := ht
      refine .inr ⟨⟨t₁, e', t₃, rfl, hreturns, fun e'' he'' => ?_⟩, ?_⟩
      · exact hreleases e'' (by simp [he''])
      · exact hreleases e (by simp)
  · rintro (h | ⟨⟨t₁, e', t₂, rfl, hreturns, hreleases⟩, h⟩)
    · exact ⟨t, e, [], rfl, h, by simp⟩
    · refine ⟨t₁, e', t₂ ++ [e], by simp, hreturns, fun e'' he'' => ?_⟩
      cases List.mem_append.mp he'' with
      | inl hmem => exact hreleases e'' hmem
      | inr hmem =>
        rw [List.mem_singleton.mp hmem]
        exact h

structure Counted (st : ι → Option Stage) (key : Key) (state : Nat) (s : KeyState) : Prop where
  refs : s.refs = (holders st (Stage.reserves key state)).ncard + s.token.isSome.toNat
  locked : s.locked.toNat = (holders st (Stage.owns key state)).ncard + s.token.isSome.toNat

structure Tallied (t : List (LockEvent ι)) (st : ι → Option Stage) (G : Registry) : Prop where
  finite : {i | st i ≠ none}.Finite
  registered : ∀ {i stage key state}, st i = some stage → stage.reserves key state →
    G.states.get? key = some state
  separate : ∀ {key key' state}, G.states.get? key = some state → G.states.get? key' = some state →
    key = key'
  bound : ∀ {key state}, G.states.get? key = some state → state < G.allocated
  counted : ∀ {key state}, G.states.get? key = some state → Counted st key state (G.objects state)
  outstanding : ∀ {key token}, Outstanding key token t ↔
    ∃ state, G.states.get? key = some state ∧ (G.objects state).token = some token
  dropped : ∀ {state}, (∀ key, G.states.get? key ≠ some state) → (G.objects state).refs = 0

structure Inv (t : List (LockEvent ι)) (st : ι → Option Stage) (G : Registry) : Prop
    extends Tallied t st G where
  used : ∀ {key state}, G.states.get? key = some state → (G.objects state).refs ≠ 0

variable {t : List (LockEvent ι)} {st : ι → Option Stage} {G G' : Registry}
  {e : LockEvent ι} {i : ι} {c : Option Stage} {key : Key} {state : Nat} {s : KeyState}
  {f : KeyState → KeyState}

theorem Tallied.unused (h : Tallied t st G) (hstate : G.states.get? key = some state)
    (hrefs : (G.objects state).refs = 0) :
    (∀ j stage, st j = some stage → ¬stage.reserves key state) ∧ (G.objects state).token = none := by
  have hcount := (h.counted hstate).refs
  rw [hrefs] at hcount
  have hfin : (holders st (Stage.reserves key state)).Finite := h.finite.subset fun j hj hnone => by
    rw [holders, Set.mem_ofPred_eq, hnone] at hj
    cases hj
  constructor
  · intro j stage hj hreserves
    have hempty := (Set.ncard_eq_zero hfin).mp (by omega)
    have hmem : j ∈ holders st (Stage.reserves key state) := by
      rw [holders, Set.mem_ofPred_eq, hj, Option.any_some, hreserves]
    rw [hempty] at hmem
    exact hmem
  · cases htoken : (G.objects state).token with
    | none => rfl
    | some token =>
      rw [htoken, Option.isSome_some, Bool.toNat_true] at hcount
      omega

section

variable [DecidableEq ι]

theorem Counted.update (h : Counted st key state s) (hfin : {i | st i ≠ none}.Finite) (i : ι)
    (c : Option Stage) {s' : KeyState}
    (hrefs : s'.refs + ((st i).any (Stage.reserves key state)).toNat + s.token.isSome.toNat =
      s.refs + (c.any (Stage.reserves key state)).toNat + s'.token.isSome.toNat)
    (hlocked : s'.locked.toNat + ((st i).any (Stage.owns key state)).toNat + s.token.isSome.toNat =
      s.locked.toNat + (c.any (Stage.owns key state)).toNat + s'.token.isSome.toNat) :
    Counted (Function.update st i c) key state s' := by
  have hreserves := ncard_holders_update hfin i c (Stage.reserves key state)
  have howns := ncard_holders_update hfin i c (Stage.owns key state)
  obtain ⟨hr, ho⟩ := h
  constructor <;> omega

theorem Counted.of_same (h : Counted st key state s) (hfin : {i | st i ≠ none}.Finite)
    (hr : c.any (Stage.reserves key state) = (st i).any (Stage.reserves key state))
    (ho : c.any (Stage.owns key state) = (st i).any (Stage.owns key state)) :
    Counted (Function.update st i c) key state s :=
  h.update hfin i c (by rw [hr]) (by rw [ho])

theorem Inv.move (h : Inv t st G)
    (hr : ∀ key state, c.any (Stage.reserves key state) = (st i).any (Stage.reserves key state))
    (ho : ∀ key state, c.any (Stage.owns key state) = (st i).any (Stage.owns key state))
    (hout : ∀ key token, Outstanding key token (t ++ [e]) ↔ Outstanding key token t) :
    Inv (t ++ [e]) (Function.update st i c) G where
  finite := finite_update h.finite i c
  registered {j stage key state} hj hreserves := by
    by_cases hji : j = i
    · subst hji
      rw [Function.update_self] at hj
      have hany := hr key state
      rw [hj, Option.any_some, hreserves] at hany
      obtain ⟨stage', hstage', hreserves'⟩ := (Option.any_eq_true ..).mp hany.symm
      exact h.registered hstage' hreserves'
    · rw [Function.update_of_ne hji] at hj
      exact h.registered hj hreserves
  separate := h.separate
  bound := h.bound
  counted hstate := (h.counted hstate).of_same h.finite (hr _ _) (ho _ _)
  used := h.used
  outstanding := (hout _ _).trans h.outstanding
  dropped := h.dropped

@[simp] theorem states_modify (G : Registry) (state : Nat) (f : KeyState → KeyState) :
    (G.modify state f).states = G.states := rfl

theorem objects_modify (G : Registry) (state : Nat) (f : KeyState → KeyState) (state' : Nat) :
    (G.modify state f).objects state' =
      if state' = state then f (G.objects state) else G.objects state' :=
  Function.update_apply ..

theorem Tallied.modify (h : Tallied t st G) {f : KeyState → KeyState}
    (hstate : G.states.get? key = some state)
    (hr : ∀ key' state', state' ≠ state →
      c.any (Stage.reserves key' state') = (st i).any (Stage.reserves key' state'))
    (ho : ∀ key' state', state' ≠ state →
      c.any (Stage.owns key' state') = (st i).any (Stage.owns key' state'))
    (hown : ∀ key' state', c.any (Stage.reserves key' state') → key' = key ∧ state' = state)
    (hcounted : Counted (Function.update st i c) key state (f (G.objects state)))
    (hout : ∀ key' token, Outstanding key' token (t ++ [e]) ↔
      if key' = key then (f (G.objects state)).token = some token else Outstanding key' token t) :
    Tallied (t ++ [e]) (Function.update st i c) (G.modify state f) := by
  have hne : ∀ {key' state'}, G.states.get? key' = some state' → key' ≠ key → state' ≠ state :=
    fun hstate' hkey heq => hkey (h.separate (heq ▸ hstate') hstate)
  constructor
  · exact finite_update h.finite i c
  · intro j stage key' state' hj hreserves
    by_cases hji : j = i
    · subst hji
      rw [Function.update_self] at hj
      obtain ⟨rfl, rfl⟩ := hown key' state' (by rw [hj, Option.any_some, hreserves])
      exact hstate
    · rw [Function.update_of_ne hji] at hj
      exact h.registered hj hreserves
  · exact h.separate
  · exact h.bound
  · intro key' state' hstate'
    rw [objects_modify]
    by_cases hkey : key' = key
    · subst hkey
      cases hstate.symm.trans hstate'
      rw [if_pos rfl]
      exact hcounted
    · have hne := hne hstate' hkey
      rw [if_neg hne]
      exact (h.counted hstate').of_same h.finite (hr _ _ hne) (ho _ _ hne)
  · intro key' token
    rw [hout, states_modify]
    by_cases hkey : key' = key
    · subst hkey
      rw [if_pos rfl]
      constructor
      · intro htoken
        exact ⟨state, hstate, by rw [objects_modify, if_pos rfl, htoken]⟩
      · rintro ⟨state', hstate', htoken⟩
        cases hstate.symm.trans hstate'
        rw [objects_modify, if_pos rfl] at htoken
        exact htoken
    · rw [if_neg hkey, h.outstanding]
      refine exists_congr fun state' => and_congr_right fun hstate' => ?_
      rw [objects_modify, if_neg (hne hstate' hkey)]
  · intro state' hno
    rw [objects_modify, if_neg fun heq : state' = state => hno key (heq ▸ hstate)]
    exact h.dropped hno

end

theorem Tallied.maybeGc (h : Tallied t st G) (hstate : G.states.get? key = some state)
    (hused : ∀ {key' state'}, G.states.get? key' = some state' → state' ≠ state →
      (G.objects state').refs ≠ 0) : Inv t st (G.maybeGc key state) := by
  rw [Registry.maybeGc]
  split
  · next hgc =>
    obtain ⟨hreserves, htoken⟩ := h.unused hstate hgc.1
    have herase : ∀ {key' state'}, (G.states.erase key).get? key' = some state' →
        key' ≠ key ∧ G.states.get? key' = some state' := by
      intro key' state' hget
      rw [Dict.get?_erase] at hget
      split at hget
      · cases hget
      · next hkey => exact ⟨hkey, hget⟩
    refine ⟨⟨h.finite, ?_, ?_, ?_, ?_, ?_, ?_⟩, ?_⟩
    · intro j stage key' state' hj hreserves'
      have hget := h.registered hj hreserves'
      have hkey : key' ≠ key := by
        rintro rfl
        cases hstate.symm.trans hget
        exact hreserves j stage hj hreserves'
      rw [Dict.get?_erase, if_neg hkey, hget]
    · intro key₁ key₂ state' h₁ h₂
      exact h.separate (herase h₁).2 (herase h₂).2
    · intro key' state' hget
      exact h.bound (herase hget).2
    · intro key' state' hget
      exact h.counted (herase hget).2
    · intro key' token
      rw [h.outstanding]
      by_cases hkey : key' = key
      · subst hkey
        simp [hstate, htoken]
      · simp only [Dict.get?_erase, if_neg hkey]
    · intro state' hno
      by_cases heq : state' = state
      · rw [heq, hgc.1]
      · refine h.dropped fun key' hget => hno key' ?_
        change (G.states.erase key).get? key' = some state'
        rw [Dict.get?_erase, if_neg, hget]
        rintro rfl
        exact heq (Option.some.inj (hget.symm.trans hstate))
    · intro key' state' hget
      obtain ⟨hkey, hget⟩ := herase hget
      exact hused hget fun heq => hkey (h.separate (heq ▸ hget) hstate)
  · next hgc =>
    refine ⟨h, fun {key' state'} hget => ?_⟩
    by_cases heq : state' = state
    · subst heq
      exact fun hrefs => hgc ⟨hrefs, hstate⟩
    · exact hused hget heq

theorem Tallied.inv (h : Tallied t st (G.modify state f))
    (hused : ∀ {key' state'}, G.states.get? key' = some state' → (G.objects state').refs ≠ 0)
    (hrefs : (f (G.objects state)).refs ≠ 0) : Inv t st (G.modify state f) := by
  refine ⟨h, fun {key' state'} hget => ?_⟩
  rw [objects_modify]
  split
  · exact hrefs
  · exact hused hget

def Represents (st : ι → Option Stage) (P : Threads ι) : Prop :=
  ∀ i, P.clients i = (st i).map Stage.call

theorem Represents.become [DecidableEq ι] {P : Threads ι} {st : ι → Option Stage} (h : Represents st P) (i : ι)
    (c : Option Stage) (G : Registry) :
    Represents (Function.update st i c) (P.become i (c.map Stage.call) G) := by
  intro j
  change Function.update P.clients i (c.map Stage.call) j = _
  by_cases hj : j = i
  · subst hj
    rw [Function.update_self, Function.update_self]
  · rw [Function.update_of_ne hj, Function.update_of_ne hj, h j]

theorem Represents.stage {P : Threads ι} {st : ι → Option Stage} (h : Represents st P) {i : ι}
    {x : Request × Call (Option String)} (hi : P.clients i = some x) :
    ∃ stage, st i = some stage ∧ stage.call = x := by
  rw [h i] at hi
  exact Option.map_eq_some_iff.mp hi

theorem objects_allocate (G : Registry) (key : Key) (state : Nat) :
    (G.allocate key).objects state =
      if state = G.allocated then ⟨false, none, 0⟩ else G.objects state :=
  Function.update_apply ..

theorem Tallied.allocate (h : Tallied t st G) (hnone : G.states.get? key = none) :
    Tallied t st (G.allocate key) := by
  have hget : ∀ {key' state'}, (G.allocate key).states.get? key' = some state' →
      key' = key ∧ state' = G.allocated ∨ key' ≠ key ∧ G.states.get? key' = some state' := by
    intro key' state' hget
    rw [Registry.allocate, Dict.get?_set] at hget
    split at hget
    · next hkey => exact .inl ⟨hkey, (Option.some.inj hget).symm⟩
    · next hkey => exact .inr ⟨hkey, hget⟩
  have hobjects : ∀ {key' state'}, G.states.get? key' = some state' →
      (G.allocate key).objects state' = G.objects state' := fun hget => by
    rw [objects_allocate, if_neg (Nat.ne_of_lt (h.bound hget))]
  have hfresh : (G.allocate key).objects G.allocated = ⟨false, none, 0⟩ := by
    rw [objects_allocate, if_pos rfl]
  constructor
  · exact h.finite
  · intro i stage key' state' hi hreserves
    have hget' := h.registered hi hreserves
    rw [Registry.allocate, Dict.get?_set, if_neg, hget']
    rintro rfl
    cases hnone.symm.trans hget'
  · intro key₁ key₂ state' h₁ h₂
    obtain ⟨hkey₁, hnew₁⟩ | ⟨-, hold₁⟩ := hget h₁
    · obtain ⟨hkey₂, -⟩ | ⟨-, hold₂⟩ := hget h₂
      · rw [hkey₁, hkey₂]
      · exact absurd (hnew₁ ▸ h.bound hold₂) (Nat.lt_irrefl _)
    · obtain ⟨-, hnew₂⟩ | ⟨-, hold₂⟩ := hget h₂
      · exact absurd (hnew₂ ▸ h.bound hold₁) (Nat.lt_irrefl _)
      · exact h.separate hold₁ hold₂
  · intro key' state' h'
    obtain ⟨-, rfl⟩ | ⟨-, hold⟩ := hget h'
    · exact Nat.lt_succ_self _
    · exact Nat.lt_succ_of_lt (h.bound hold)
  · intro key' state' h'
    obtain ⟨rfl, rfl⟩ | ⟨-, hold⟩ := hget h'
    · have hempty : holders st (Stage.reserves key' G.allocated) = ∅ ∧
          holders st (Stage.owns key' G.allocated) = ∅ := by
        have hno : ∀ i stage, st i = some stage → ¬stage.reserves key' G.allocated :=
          fun i stage hi hreserves =>
            Option.some_ne_none _ ((h.registered hi hreserves).symm.trans hnone)
        constructor
        · exact holders_eq_empty fun i stage hi => Bool.eq_false_iff.mpr (hno i stage hi)
        · exact holders_eq_empty fun i stage hi => Bool.eq_false_iff.mpr fun howns =>
            hno i stage hi (Stage.reserves_of_owns howns)
      rw [hfresh]
      constructor
      · simp [hempty.1]
      · simp [hempty.2]
    · rw [hobjects hold]
      exact h.counted hold
  · intro key' token
    rw [h.outstanding]
    constructor
    · rintro ⟨state', hstate', htoken⟩
      refine ⟨state', ?_, by rw [hobjects hstate', htoken]⟩
      rw [Registry.allocate, Dict.get?_set, if_neg, hstate']
      rintro rfl
      cases hnone.symm.trans hstate'
    · rintro ⟨state', hstate', htoken⟩
      obtain ⟨rfl, rfl⟩ | ⟨-, hold⟩ := hget hstate'
      · rw [hfresh] at htoken
        cases htoken
      · rw [hobjects hold] at htoken
        exact ⟨state', hold, htoken⟩
  · intro state' hno
    rw [objects_allocate]
    split
    · rfl
    · refine h.dropped fun key' hget' => hno key' ?_
      rw [Registry.allocate, Dict.get?_set, if_neg, hget']
      rintro rfl
      cases hnone.symm.trans hget'

theorem Counted.vacant (h : Counted st key state s) (hfin : {i | st i ≠ none}.Finite)
    {stage : Stage} (hi : st i = some stage) (howns : stage.owns key state) :
    s.token = none ∧ s.locked = true := by
  have hpos : 0 < (holders st (Stage.owns key state)).ncard := by
    rw [Set.ncard_pos (hfin.subset fun j hj hnone => by
      rw [holders, Set.mem_ofPred_eq, hnone] at hj
      cases hj)]
    exact ⟨i, by rw [holders, Set.mem_ofPred_eq, hi, Option.any_some, howns]⟩
  have hlocked := h.locked
  have hle := Bool.toNat_le s.locked
  cases htoken : s.token with
  | some token =>
    rw [htoken, Option.isSome_some, Bool.toNat_true] at hlocked
    omega
  | none =>
    refine ⟨rfl, ?_⟩
    cases hl : s.locked with
    | true => rfl
    | false =>
      rw [hl, Bool.toNat_false] at hlocked
      omega

section

variable [DecidableEq ι] {timeout : Timeout} {token : String}

theorem Tallied.reserve (h : Tallied t st G) (hi : st i = some (.begun key timeout))
    (hstate : G.states.get? key = some state)
    (hout : ∀ key token, Outstanding key token (t ++ [e]) ↔ Outstanding key token t) :
    Tallied (t ++ [e]) (Function.update st i (some (.reserved key timeout state)))
      (G.modify state fun s => { s with refs := s.refs + 1 }) := by
  apply h.modify hstate
  · intro key' state' hne
    simp [hi, Stage.reserves, Ne.symm hne]
  · intro key' state' hne
    simp [hi, Stage.owns]
  · intro key' state' hown
    simp only [Option.any_some, Stage.reserves, decide_eq_true_eq] at hown
    exact ⟨hown.1.symm, hown.2.symm⟩
  · apply (h.counted hstate).update h.finite
    · simp [hi, Stage.reserves]
    · simp [hi, Stage.owns]
  · intro key' token
    rw [hout]
    split
    · next hkey =>
      subst hkey
      simp [h.outstanding, hstate]
    · rfl

theorem Inv.reserve (h : Inv t st G) {a : Nat} (hi : st i = some (.begun key timeout))
    (ha : (a, G') = G.reserve key)
    (hout : ∀ key token, Outstanding key token (t ++ [e]) ↔ Outstanding key token t) :
    Inv (t ++ [e]) (Function.update st i (some (.reserved key timeout a))) G' := by
  rw [Registry.reserve] at ha
  split at ha
  · next state hstate =>
    cases ha
    apply (h.toTallied.reserve hi hstate hout).inv h.used
    have hrefs := (h.counted hstate).refs
    have hused := h.used hstate
    change (G.objects a).refs + 1 ≠ 0
    omega
  · next hnone =>
    cases ha
    have hnew : (G.allocate key).states.get? key = some G.allocated := Dict.get?_set_self ..
    refine ⟨(h.toTallied.allocate hnone).reserve hi hnew hout, fun {key' state'} hget => ?_⟩
    rw [objects_modify]
    split
    · rw [objects_allocate, if_pos rfl]
      decide
    · next hne =>
      change (G.states.set key G.allocated).get? key' = some state' at hget
      rw [Dict.get?_set] at hget
      split at hget
      · exact absurd (Option.some.inj hget).symm hne
      · rw [objects_allocate, if_neg hne]
        exact h.used hget

theorem Inv.take (h : Inv t st G) (hi : st i = some (.reserved key timeout state))
    (hfree : (G.objects state).locked = false)
    (hout : ∀ key token, Outstanding key token (t ++ [e]) ↔ Outstanding key token t) :
    Inv (t ++ [e]) (Function.update st i (some (.owner key timeout state)))
      (G.modify state fun s => { s with locked := true }) := by
  have hstate : G.states.get? key = some state := h.registered hi (by simp [Stage.reserves])
  refine Tallied.inv (h.toTallied.modify hstate ?_ ?_ ?_ ?_ ?_) h.used (h.used hstate)
  · intro key' state' hne
    simp [hi, Stage.reserves]
  · intro key' state' hne
    simp [hi, Stage.owns, Ne.symm hne]
  · intro key' state' hown
    simp only [Option.any_some, Stage.reserves, decide_eq_true_eq] at hown
    exact ⟨hown.1.symm, hown.2.symm⟩
  · apply (h.counted hstate).update h.finite
    · simp [hi, Stage.reserves]
    · simp [hi, Stage.owns, hfree]
  · intro key' token
    rw [hout]
    split
    · next hkey =>
      subst hkey
      simp [h.outstanding, hstate]
    · rfl

theorem Inv.unreserve (h : Inv t st G) (hi : st i = some (.failed key timeout state))
    (hout : ∀ key token, Outstanding key token (t ++ [e]) ↔ Outstanding key token t)
    {result : Option String} {q : Request} :
    Inv (t ++ [e]) (Function.update st i (some (.returned q result))) (G.unreserve key state) := by
  have hstate : G.states.get? key = some state := h.registered hi (by simp [Stage.reserves])
  refine Tallied.maybeGc (h.toTallied.modify hstate ?_ ?_ ?_ ?_ ?_) hstate ?_
  · intro key' state' hne
    simp [hi, Stage.reserves, Ne.symm hne]
  · intro key' state' hne
    simp [hi, Stage.owns]
  · intro key' state' hown
    exact nomatch hown
  · apply (h.counted hstate).update h.finite
    · simp [hi, Stage.reserves]
    · simp [hi, Stage.owns]
  · intro key' token
    rw [hout]
    split
    · next hkey =>
      subst hkey
      simp [h.outstanding, hstate]
    · rfl
  · intro key' state' hget hne
    rw [objects_modify, if_neg hne]
    exact h.used hget

theorem Inv.publish (h : Inv t st G) (hi : st i = some (.named key timeout state token))
    (hout : ∀ key' token', Outstanding key' token' (t ++ [e]) ↔
      key' = key ∧ token' = token ∨ Outstanding key' token' t)
    {result : Option String} {q : Request} :
    Inv (t ++ [e]) (Function.update st i (some (.returned q result))) (G.publish state token) := by
  have howns : (Stage.named key timeout state token).owns key state := by simp [Stage.owns]
  have hstate : G.states.get? key = some state := h.registered hi (Stage.reserves_of_owns howns)
  obtain ⟨hnone, hlocked⟩ := (h.counted hstate).vacant h.finite hi howns
  refine Tallied.inv (h.toTallied.modify hstate ?_ ?_ ?_ ?_ ?_) h.used (h.used hstate)
  · intro key' state' hne
    simp [hi, Stage.reserves, Ne.symm hne]
  · intro key' state' hne
    simp [hi, Stage.owns, Ne.symm hne]
  · intro key' state' hown
    exact nomatch hown
  · apply (h.counted hstate).update h.finite
    · simp [hi, Stage.reserves, hnone]
    · simp [hi, Stage.owns, hnone]
  · intro key' token'
    rw [hout]
    split
    · next hkey =>
      subst hkey
      simp [h.outstanding, hstate, hnone, eq_comm]
    · next hkey => simp [hkey]

omit [DecidableEq ι] in
theorem Tallied.release_eq (h : Tallied t st G) (hnot : ¬Outstanding key token t) :
    G.release key token = G := by
  rw [Registry.release]
  split
  · rfl
  · next state hstate =>
    rw [if_pos]
    exact fun htoken => hnot (h.outstanding.mpr ⟨state, hstate, htoken⟩)

theorem Inv.release (h : Inv t st G) (hi : st i = some (.releasing key token))
    (hout : ∀ key' token', Outstanding key' token' (t ++ [e]) ↔
      Outstanding key' token' t ∧ ¬(key' = key ∧ token' = token))
    {result : Option String} {q : Request} :
    Inv (t ++ [e]) (Function.update st i (some (.returned q result))) (G.release key token) := by
  by_cases hyes : Outstanding key token t
  · obtain ⟨state, hstate, htoken⟩ := h.outstanding.mp hyes
    have hrelease : G.release key token =
        (G.modify state fun s => ⟨false, none, s.refs - 1⟩).maybeGc key state := by
      rw [Registry.release, hstate]
      exact if_neg fun hne => hne htoken
    rw [hrelease]
    refine Tallied.maybeGc (h.toTallied.modify hstate ?_ ?_ ?_ ?_ ?_) hstate ?_
    · intro key' state' hne
      simp [hi, Stage.reserves]
    · intro key' state' hne
      simp [hi, Stage.owns]
    · intro key' state' hown
      exact nomatch hown
    · have hlocked := (h.counted hstate).locked
      rw [htoken, Option.isSome_some, Bool.toNat_true] at hlocked
      have hle := Bool.toNat_le (G.objects state).locked
      apply (h.counted hstate).update h.finite
      · simp [hi, Stage.reserves, htoken]
      · simp [hi, Stage.owns, htoken]
        omega
    · intro key' token'
      rw [hout]
      split
      · next hkey =>
        subst hkey
        simp [h.outstanding, hstate, htoken, eq_comm]
      · next hkey => simp [hkey]
    · intro key' state' hget hne
      rw [objects_modify, if_neg hne]
      exact h.used hget
  · rw [h.release_eq hyes]
    apply h.move
    · simp [hi, Stage.reserves]
    · simp [hi, Stage.owns]
    · intro key' token'
      rw [hout, and_iff_left_iff_imp]
      rintro hout' ⟨rfl, rfl⟩
      exact hyes hout'

theorem Inv.step {P P' : Threads ι} (h : Inv t st P.store) (hst : Represents st P)
    (hstep : Pool.Step (fun _ _ => service) (Request.program timeoutMax) (fun _ _ _ => True) P e P')
    (hend : e.Finished) (hwaits : Waits timeoutMax e) : ∃ st', Represents st' P' ∧ Inv (t ++ [e]) st' P'.store := by
  have hquiet : (∀ key token, ¬Returns key token e ∧ ¬Releases key token e) →
      ∀ key token, Outstanding key token (t ++ [e]) ↔ Outstanding key token t := by
    intro hno key token
    simp [outstanding_append, hno key token]
  cases hstep with
  | @start i l hnone _ =>
    obtain ⟨stage, hcall, hplain⟩ := Stage.call_program hwaits
    have hidle : st i = none := by simpa [hst i] using hnone
    refine ⟨Function.update st i (some stage), ?_, ?_⟩
    · rw [← hcall]
      exact hst.become i (some stage) _
    · apply h.move
      · simp [hidle, hplain]
      · simp [hidle, hplain]
      · exact hquiet fun _ _ => ⟨id, id⟩
  | @op i l o k a G' hcall hs =>
    obtain ⟨stage, hi, hstage⟩ := hst.stage hcall
    cases stage with
    | begun key timeout =>
      cases hstage
      exact ⟨_, hst.become i (some (.reserved key timeout a)) G', h.reserve hi hs
        (hquiet fun _ _ => ⟨id, id⟩)⟩
    | reserved key timeout state =>
      cases hstage
      cases a with
      | true =>
        obtain ⟨hfree, rfl⟩ := hs
        exact ⟨_, hst.become i (some (.owner key timeout state)) _, h.take hi hfree
          (hquiet fun _ _ => ⟨id, id⟩)⟩
      | false =>
        obtain ⟨-, rfl⟩ := hs
        refine ⟨_, hst.become i (some (.failed key timeout state)) _, h.move ?_ ?_
          (hquiet fun _ _ => ⟨id, id⟩)⟩
        · simp [hi, Stage.reserves]
        · simp [hi, Stage.owns]
    | failed key timeout state =>
      cases hstage
      cases hs
      exact ⟨_, hst.become i (some (.returned (.acquire key timeout) none)) _, h.unreserve hi
        (hquiet fun _ _ => ⟨id, id⟩)⟩
    | owner key timeout state =>
      cases hstage
      obtain ⟨-, rfl⟩ := hs
      have hmove : Inv (t ++ [_]) (Function.update st i (some (.named key timeout state a))) P.store :=
        h.move (by simp [hi, Stage.reserves]) (by simp [hi, Stage.owns])
          (hquiet fun _ _ => ⟨id, id⟩)
      exact ⟨_, hst.become i (some (.named key timeout state a)) _,
        ⟨⟨hmove.finite, hmove.registered, hmove.separate, hmove.bound, hmove.counted,
          hmove.outstanding, hmove.dropped⟩, hmove.used⟩⟩
    | named key timeout state token =>
      cases hstage
      cases hs
      refine ⟨_, hst.become i (some (.returned (.acquire key timeout) (some token))) _,
        h.publish hi fun key' token' => ?_⟩
      simp [outstanding_append, Returns, Releases, eq_comm]
    | returned q result => exact nomatch hstage
    | releasing key token =>
      cases hstage
      cases hs
      refine ⟨_, hst.become i (some (.returned (.release key token) none)) _,
        h.release hi fun key' token' => ?_⟩
      simp [outstanding_append, Returns, Releases, eq_comm]
  | @leave i l p hcall =>
    obtain ⟨stage, hi, hstage⟩ := hst.stage hcall
    refine ⟨_, hst.become i none _, h.move ?_ ?_ (hquiet fun _ _ => ⟨id, id⟩)⟩
    · cases stage with
      | returned q result => simp [hi, Stage.reserves]
      | _ => cases hstage; exact nomatch hend
    · cases stage with
      | returned q result => simp [hi, Stage.owns]
      | _ => cases hstage; exact nomatch hend

omit [DecidableEq ι] in
theorem inv_empty : Inv ([] : List (LockEvent ι)) (fun _ => none) Registry.empty := by
  refine ⟨⟨by simp, ?_, ?_, ?_, ?_, ?_, fun _ => rfl⟩, ?_⟩
  · exact fun hi => nomatch hi
  · exact fun hget => nomatch hget
  · exact fun hget => nomatch hget
  · exact fun hget => nomatch hget
  · intro key token
    constructor
    · rintro ⟨t₁, e, t₂, h, -⟩
      simp at h
    · rintro ⟨state, hget, -⟩
      exact nomatch hget
  · exact fun hget => nomatch hget

theorem LockRun.inv {P : Threads ι} (h : LockRun timeoutMax t P)
    (hwaits : ∀ e ∈ t, Waits timeoutMax e) : ∃ st, Represents st P ∧ Inv t st P.store := by
  refine h.runs.record (J := fun t P => ∃ st, Represents st P ∧ Inv t st P.store)
    (F := fun e => e.Finished ∧ Waits timeoutMax e) ?_
    (fun e he => ⟨h.finished e he, hwaits e he⟩) ⟨fun _ => none, fun _ => rfl, inv_empty⟩
  rintro u P e P' ⟨st, hst, hinv⟩ hstep hend
  exact hinv.step hst hstep hend.1 hend.2

theorem LockRun.split {t₁ t₂ : List (LockEvent ι)} {P : Threads ι}
    (h : LockRun timeoutMax (t₁ ++ t₂) P) : ∃ P', LockRun timeoutMax t₁ P' ∧
      Pool.Runs (fun _ _ => service) (Request.program timeoutMax) (fun _ _ _ => True) P' t₂ P := by
  obtain ⟨P', h₁, h₂⟩ := h.runs.split
  exact ⟨P', ⟨h₁, fun e he => h.finished e (List.mem_append_left _ he)⟩, h₂⟩

theorem LockRun.exclusive {t₁ t₂ t₃ : List (LockEvent ι)} {e e' : LockEvent ι} {token' : String}
    {P : Threads ι} (h : LockRun timeoutMax (t₁ ++ e :: (t₂ ++ e' :: t₃)) P)
    (hwaits : ∀ e₁ ∈ t₁ ++ e :: (t₂ ++ e' :: t₃), Waits timeoutMax e₁) (he : Returns key token e)
    (he' : Returns key token' e') : ∃ e₂ ∈ t₂, Releases key token e₂ := by
  by_contra hnone
  rw [← List.cons_append, ← List.append_assoc] at h hwaits
  obtain ⟨P₁, h₁, h₂⟩ := h.split
  obtain ⟨st, hst, hinv⟩ := h₁.inv fun e₁ he₁ => hwaits e₁ (List.mem_append_left _ he₁)
  obtain ⟨state, hstate, htoken⟩ := hinv.outstanding.mp
    ⟨t₁, e, t₂, rfl, he, fun e₂ hmem hreleases => hnone ⟨e₂, hmem, hreleases⟩⟩
  cases h₂ with
  | cons hstep _ =>
    cases hstep with
    | start _ _ => exact he'
    | leave _ => exact he'
    | @op i l o k a G' hcall hs =>
      obtain ⟨stage, hi, hstage⟩ := hst.stage hcall
      cases stage with
      | named key' timeout state' token'' =>
        cases hstage
        obtain ⟨rfl, rfl⟩ := he'
        have howns : (Stage.named key' timeout state' token'').owns key' state' := by
          simp [Stage.owns]
        cases hstate.symm.trans (hinv.registered hi (Stage.reserves_of_owns howns))
        exact nomatch htoken.symm.trans ((hinv.counted hstate).vacant hinv.finite hi howns).1
      | returned q result => exact nomatch hstage
      | _ => cases hstage; exact he'

omit [DecidableEq ι] in
theorem mem_inFlight {P : Threads ι} (hst : Represents st P) :
    InFlight P key state = holders st (Stage.reserves key state) := by
  ext i
  rw [InFlight, holders, Set.mem_ofPred_eq, Set.mem_ofPred_eq, Option.any_eq_true, hst i]
  constructor
  · rintro ⟨stage, hstage, hreserves⟩
    obtain ⟨stage', hstage', hcall⟩ := Option.map_eq_some_iff.mp hstage
    rw [Stage.call_injective hcall] at hstage'
    exact ⟨stage, hstage', hreserves⟩
  · rintro ⟨stage, hstage, hreserves⟩
    exact ⟨stage, by rw [hstage, Option.map_some], hreserves⟩

end

/-- What the lock promises of a run that stands at `P`. -/
structure Hygienic (t : List (LockEvent ι)) (P : Threads ι) : Prop where
  exclusive : ∀ t₁ e t₂ e' t₃ key token token', t = t₁ ++ e :: (t₂ ++ e' :: t₃) →
    Returns key token e → Returns key token' e' → ∃ e₂ ∈ t₂, Releases key token e₂
  refs : ∀ key state, P.store.states.get? key = some state →
    (P.store.objects state).refs =
      (InFlight P key state).ncard + {token | Outstanding key token t}.ncard
  single : ∀ key token token', Outstanding key token t → Outstanding key token' t → token = token'
  dropped : ∀ state, (∀ key, P.store.states.get? key ≠ some state) →
    (P.store.objects state).refs = 0
  shared : ∀ key state i, i ∈ InFlight P key state → P.store.states.get? key = some state
  owned : ∀ key token, Outstanding key token t → ∃ state, P.store.states.get? key = some state ∧
    (P.store.objects state).token = some token
  ignored : ∀ t₁ i l key token G a G' t₂, t = t₁ ++ .op i l (.release key token) G a G' :: t₂ →
    ¬Outstanding key token t₁ → G' = G
  empty : (∀ key state, InFlight P key state = ∅) → (∀ key token, ¬Outstanding key token t) →
    P.store.states = ∅

def schedule : List (Pool.Move Nat Request) :=
  [.start 0 (.acquire ("g", "t") (.finite 0)), .start 1 (.acquire ("g", "t") .nan), .op 0, .op 1,
    .op 0, .op 1, .op 1, .leave 1, .op 0, .op 0, .leave 0,
    .start 1 (.acquire ("g", "t") (.finite 1)), .op 1, .start 0 (.release ("g", "t") "u"), .op 0,
    .leave 0, .op 1, .op 1, .op 1, .leave 1, .start 0 (.release ("g", "t") "u"), .op 0, .leave 0]

def play (moves : List (Pool.Move Nat Request)) : List (LockEvent Nat) × Threads Nat :=
  Pool.play (fun _ _ => act) (Request.program 9223372036) moves (Pool.idle Registry.empty)

theorem lockRun_play {moves : List (Pool.Move Nat Request)}
    (h : ∀ e ∈ (play moves).1, e.Finished) : LockRun 9223372036 (play moves).1 (play moves).2 :=
  ⟨Pool.runs_play (fun _ _ => act_step) moves _, h⟩

instance (timeoutMax : Rat) (timeout : Timeout) : Decidable (timeout.Accepted timeoutMax) :=
  inferInstanceAs (Decidable (_ → _))

instance (timeoutMax : Rat) (e : LockEvent ι) : Decidable (Waits timeoutMax e) :=
  match e with
  | .start _ (.acquire _ timeout) _ => inferInstanceAs (Decidable (timeout.Accepted timeoutMax))
  | .start _ (.release ..) _ => .isTrue trivial
  | .op .. => .isTrue trivial
  | .leave .. => .isTrue trivial

def overflow : List (Pool.Move Nat Request) :=
  [.start 0 (.acquire ("g", "t") (.finite 10000000000)), .op 0, .leave 0]

end LangGraphFunctions.Locks.InProcess
