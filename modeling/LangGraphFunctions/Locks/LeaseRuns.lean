import LangGraphFunctions.Lib.Calls
import LangGraphFunctions.Locks.LeaseCalls

/-! The bookkeeping of leases, over every run of the lock. -/

namespace LangGraphFunctions.Locks.AzureBlob

open Lib

variable {ι : Type}

abbrev Threads (ι : Type) := Pool interface Exn (Option String) World ι Request
abbrev LeaseEvent (ι : Type) := Pool.Event interface Exn (Option String) World ι Request

def World.fresh : World where
  lock := ⟨∅, fun _ => ⟨0, false⟩, false⟩
  service := ⟨fun _ => none, 0, []⟩
  tokens := []

/-- A run of a new lock in which every call that ends has run to its end. -/
structure LeaseRun [DecidableEq ι] (blobPrefix : String) (t : List (LeaseEvent ι)) (P : Threads ι) :
    Prop where
  runs : Pool.Runs (fun _ _ => service) (Request.program blobPrefix) (fun _ _ _ => True)
    (Pool.idle World.fresh) t P
  finished : ∀ e ∈ t, e.Finished

def Ledger.fresh : Ledger ι := ⟨World.fresh, fun _ => .nobody, none, false⟩

theorem accounted_fresh : Accounted (Ledger.fresh : Ledger ι) := by
  refine ⟨?_, ?_, ?_, ?_, fun _ => rfl, ?_, ?_, ?_, ?_⟩
  · exact nofun
  · exact nofun
  · exact fun hn => absurd rfl hn
  · exact fun hn => absurd hn List.not_mem_nil
  · exact nofun
  · exact fun hn => absurd hn (Nat.not_lt_zero _)
  · exact nofun
  · exact nofun

theorem idle_fresh (i : ι) : Idle i (Ledger.fresh : Ledger ι) :=
  ⟨fun _ => iff_of_false nofun List.not_mem_nil, fun _ => nofun, nofun⟩

theorem Busy.give {i : ι} {q : Request} {H : Ledger ι} (h : Busy i q H) (n : Nat) (c : Custody ι)
    (W : World) (hacquiring : c = .acquiring i → q.isAcquire)
    (hleaving : c = .leaving i → q.isRelease) : Busy i q { H.give n c with world := W } := by
  have hcustody := H.custody_give n c
  refine ⟨fun m hm => ?_, fun m hm => ?_, h.sweeper⟩
  · have hm := (hcustody m).symm.trans hm
    split at hm
    · exact hacquiring hm
    · exact h.acquiring m hm
  · have hm := (hcustody m).symm.trans hm
    split at hm
    · exact .inl (hleaving hm)
    · exact h.leaving m hm

theorem Busy.drop {i : ι} {q : Request} {H : Ledger ι} (h : Busy i q H) (n : Nat) (W : World) :
    Busy i q { H.give n .nobody with world := W } :=
  h.give n .nobody W (absurd · (Custody.acquiring_ne_nobody i).symm)
    (absurd · (Custody.leaving_ne_nobody i).symm)

section

variable [DecidableEq ι] {blobPrefix : String} {t : List (LeaseEvent ι)} {P : Threads ι}

theorem Busy.step {i : ι} {q : Request} {o : Op} {a : o.Ans} {H H' : Ledger ι} (h : Busy i q H)
    (hs : (ledgerService i).step o H a H') (hallowed : Allowed i q o H) : Busy i q H' := by
  rw [hs.2]
  generalize H'.world = W
  have hsame : Busy i q { H with world := W } := ⟨h.acquiring, h.leaving, h.sweeper⟩
  by_cases ho : o.quiet
  · rw [Ledger.next, note_quiet ho]
    exact hsame
  · cases o with
    | acquireLease blob =>
      cases a with
      | ok lease =>
        exact h.give lease (.acquiring i) W (fun _ => hallowed)
          (absurd · (Custody.acquiring_ne_leaving i i))
      | error e => exact hsame
    | register key lease => exact h.drop lease W
    | pop key token =>
      cases a with
      | none => exact hsame
      | some state =>
        refine h.give state.lease (.leaving i) W
          (absurd · (Custody.acquiring_ne_leaving i i).symm) fun _ => ?_
        rw [show q = .release key token from hallowed]
        rfl
    | lost lease =>
      cases a with
      | false => exact hsame
      | true =>
        change Busy i q
          { (if H.custody lease = .leaving i then H.give lease .nobody else H) with world := W }
        split
        · exact h.drop lease W
        · exact hsame
    | releaseLease lease => exact h.drop lease W
    | setClosed => exact ⟨h.acquiring, h.leaving, fun _ => .inr hallowed⟩
    | takeAll =>
      refine ⟨fun n hn => ?_, fun n hn => .inr hallowed.1, fun _ => .inl rfl⟩
      change (if n ∈ a.map (·.2.lease) then _ else _) = _ at hn
      split at hn
      · cases hn
      · exact h.acquiring n hn
    | _ => exact absurd rfl ho

theorem program_meets {i : ι} {H : Ledger ι} (haccounted : Accounted H) (h : Idle i H)
    (q : Request) : Meets i q (q.program blobPrefix) (fun _ H' => Idle i H') H := by
  have hmap : ∀ {p : Call Unit}, Meets i q p (fun _ H' => Idle i H') H →
      Meets i q ((fun _ => none) <$> p : Call (Option String)) (fun _ H' => Idle i H') H := by
    intro p hp
    rw [map_eq_pure_bind]
    refine Prog.safe_bind.mpr (hp.mono fun r H' h' => ?_)
    cases r <;> exact h'
  have hquiet : ∀ {o : Op} (f : o.Ans → Unit), o.quiet →
      Meets i q (Prog.call o fun a => .ret (f a)) (fun _ H' => Idle i H') H :=
    fun f ho => meets_quiet ho (fun _ _ h' => h') h
  cases q with
  | acquire key timeout rounds => exact acquire_meets h
  | release key token => exact hmap (release_meets h)
  | renewAllOnce autoRenew => exact hmap (renewAllOnce_meets h)
  | close => exact hmap (close_meets haccounted h)
  | ownershipGuard key token => exact hmap (hquiet id rfl)
  | check key token => exact hmap (check_meets h)
  | lapse blob => exact hmap (hquiet id rfl)
  | seize blob => exact hmap (hquiet id rfl)

theorem lease_attended : Pool.Attended (fun i _ => ledgerService i) (Request.program blobPrefix)
    (fun _ _ _ => True) Rely (fun i q o H _ _ => Allowed i q o H) (fun i _ _ H => Idle i H)
    (Accounted : Ledger ι → Prop) Idle Busy where
  refl i H := ⟨.refl i H, id⟩
  trans i _ _ _ h h' := ⟨h.toSpares.trans i h'.toSpares, h'.accounted ∘ h.accounted⟩
  rely hij h hs hallowed := ⟨h.spares hij hs hallowed, fun h => h.step hs hallowed⟩
  inv hs hallowed h := h.step hs hallowed
  stable hR h := h.spared hR.toSpares
  idle hR h := h.spared hR.toSpares
  busy hR h := h.spared hR.toSpares
  start haccounted h _ := ⟨program_meets haccounted h _, h.busy _⟩
  op _ hs hallowed h := h.step hs hallowed
  leave h := h

theorem LeaseRun.ledger (h : LeaseRun blobPrefix t P) :
    ∃ (H : Ledger ι) (u : List (Pool.Event interface Exn (Option String) (Ledger ι) ι Request)),
      H.world = P.store ∧ u.map (Pool.Event.map Ledger.world) = t ∧
        Pool.Attends (fun i _ => ledgerService i) Rely (fun i q o H _ _ => Allowed i q o H)
          (fun i _ _ H => Idle i H) Accounted Idle Busy ⟨P.clients, H⟩ ∧
        ∀ e ∈ u, e.Satisfies (fun i _ => ledgerService i) (fun i q o H _ _ => Allowed i q o H)
          (fun i _ _ H => Idle i H) Accounted := by
  obtain ⟨u, H, hruns, hworld, hmap⟩ := h.runs.lift (T := fun i _ => ledgerService i) Ledger.world
    (fun {i l o H a W'} hs => ⟨H.next i o a W', rfl, hs, rfl⟩) (h := Ledger.fresh) rfl
  have hfinished : ∀ e ∈ u, e.Finished := by
    intro e he
    have hmem := h.finished (e.map Ledger.world) (hmap ▸ List.mem_map_of_mem he)
    cases e <;> exact hmem
  obtain ⟨hP, hu⟩ := Pool.attends_runs lease_attended hruns hfinished
    ⟨accounted_fresh, fun i _ => idle_fresh i, fun _ _ _ hl => nomatch hl⟩
  exact ⟨H, u, hworld, hmap, hP, hu⟩

theorem LeaseRun.split {t₁ t₂ : List (LeaseEvent ι)} (h : LeaseRun blobPrefix (t₁ ++ t₂) P) :
    ∃ P₁, LeaseRun blobPrefix t₁ P₁ ∧ Pool.Runs (fun _ _ => service) (Request.program blobPrefix)
      (fun _ _ _ => True) P₁ t₂ P := by
  obtain ⟨P₁, h₁, h₂⟩ := h.runs.split
  exact ⟨P₁, ⟨h₁, fun e he => h.finished e (List.mem_append_left _ he)⟩, h₂⟩

end

inductive Mark
  | got (lease : Nat)
  | registered (key : Key) (lease : Nat) (answer : Except Exn (Option String))

def mark : (o : Op) × o.Ans → List Mark
  | ⟨.acquireLease _, .ok lease⟩ => [.got lease]
  | ⟨.register key lease, answer⟩ => [.registered key lease answer]
  | _ => []

def Acquires (key : Key) (r : Except Exn (Option String)) (w : List Mark) : Prop :=
  (w = [] ∧ ∀ token, r ≠ .ok (some token)) ∨ ∃ lease, w = [.got lease, .registered key lease r]

abbrev Marks {α : Type} (p : Call α) (S : Except Exn α → List Mark → Prop) : Prop :=
  p.Writes (fun _ _ => True) mark S

theorem ensureMarker_marks {blob : String} : Marks (ensureMarker blob) fun _ w => w = [] := by
  intro a _
  cases a with
  | ok _ => rfl
  | error e =>
    cases e with
    | http e =>
      change Marks (if e.isLeaseConflict then return else .raise (.http e)) _
      split <;> rfl
    | _ => rfl

theorem deadlineOf_marks {timeout : Rat} : Marks (deadlineOf timeout) fun _ w => w = [] := by
  rw [deadlineOf]
  split
  · exact fun _ _ => rfl
  · rfl

def Polls : Except Exn (Option Nat) → List Mark → Prop
  | .ok (some lease), w => w = [.got lease]
  | _, w => w = []

theorem poll_marks {blob : String} {timeout deadline : Rat} {rounds : Nat} :
    Marks (poll blob timeout deadline rounds) Polls := by
  induction rounds with
  | zero => exact fun never => nomatch never
  | succ rounds ih =>
    intro closed _
    change Marks (if closed then _ else _) _
    split
    · exact rfl
    · rintro (e | lease) -
      · change Marks (if _ then _ else if _ then _ else _) _
        split
        · exact rfl
        · split
          · exact rfl
          · intro now _
            change Marks (if _ then _ else _) _
            split
            · exact rfl
            · exact fun _ _ _ _ => ih
      · exact rfl

theorem acquire_marks {blobPrefix : String} {key : Key} {timeout : Rat} {rounds : Nat} :
    Marks (acquire blobPrefix key timeout rounds) (Acquires key) := by
  rintro (e | occupied) -
  · exact .inl ⟨rfl, nofun⟩
  · change Marks (if occupied then _ else _) _
    split
    · exact .inl ⟨rfl, nofun⟩
    · refine Prog.writes_bind ensureMarker_marks (fun _ w hw => ?_) fun e w hw => .inl ⟨hw, nofun⟩
      cases hw
      refine Prog.writes_bind deadlineOf_marks (fun deadline w hw => ?_) fun e w hw =>
        .inl ⟨hw, nofun⟩
      cases hw
      refine Prog.writes_bind poll_marks (fun lease w hw => ?_) fun e w hw => .inl ⟨hw, nofun⟩
      cases lease with
      | none =>
        cases hw
        exact .inl ⟨rfl, nofun⟩
      | some lease =>
        cases hw
        intro a _
        exact Prog.writes_ofExcept (.inr ⟨lease, rfl⟩)

def Ended (t : List (LeaseEvent ι)) (i : ι) (q : Request) (r : Except Exn (Option String))
    (u : List (LeaseEvent ι)) : Prop :=
  (∀ q' W, .start i q' W ∉ u) ∧
    ∃ t₁ W W' t₂, t = t₁ ++ .start i q W :: (u ++ .leave i q (Prog.ofExcept r) W' :: t₂)

def Gets (i : ι) (lease : Nat) : LeaseEvent ι → Prop
  | .op j _ (.acquireLease _) _ (.ok lease') _ => j = i ∧ lease' = lease
  | _ => False

def Registers (i : ι) (key : Key) (lease : Nat) (token : String) : LeaseEvent ι → Prop
  | .op j _ (.register key' lease') _ (.ok (some token')) W => j = i ∧ key' = key ∧ lease' = lease ∧
    token' = token ∧ W.lock.active.get? key = some ⟨lease, token⟩
  | _ => False

def GivesBack (i : ι) (lease : Nat) : LeaseEvent ι → Prop
  | .op j _ (.register _ lease') _ _ W => j = i ∧ lease' = lease ∧ lease ∈ W.service.released
  | _ => False

theorem mem_marks_got {w : Transcript interface} {lease : Nat} :
    .got lease ∈ w.flatMap mark ↔ ∃ blob, ⟨.acquireLease blob, .ok lease⟩ ∈ w := by
  rw [List.mem_flatMap]
  constructor
  · rintro ⟨x, hx, hmark⟩
    unfold mark at hmark
    split at hmark
    · cases List.mem_singleton.mp hmark
      exact ⟨_, hx⟩
    · exact nomatch List.mem_singleton.mp hmark
    · exact absurd hmark List.not_mem_nil
  · rintro ⟨blob, h⟩
    exact ⟨_, h, List.mem_singleton_self _⟩

theorem mem_marks_registered {w : Transcript interface} {key : Key} {lease : Nat}
    {answer : Except Exn (Option String)} :
    .registered key lease answer ∈ w.flatMap mark ↔ ⟨.register key lease, answer⟩ ∈ w := by
  rw [List.mem_flatMap]
  constructor
  · rintro ⟨x, hx, hmark⟩
    unfold mark at hmark
    split at hmark
    · exact nomatch List.mem_singleton.mp hmark
    · cases List.mem_singleton.mp hmark
      exact hx
    · exact absurd hmark List.not_mem_nil
  · exact fun h => ⟨_, h, List.mem_singleton_self _⟩

theorem registerStep_ends {key : Key} {lease : Nat} {W W' : World}
    {a : Except Exn (Option String)} (h : registerStep key lease W a W') :
    (∃ token, a = .ok (some token) ∧ W'.lock.active.get? key = some ⟨lease, token⟩) ∨
      (∀ token, a ≠ .ok (some token)) ∧ lease ∈ W'.service.released := by
  rw [registerStep] at h
  split at h
  · obtain ⟨rfl, succeeds, rfl⟩ := h
    exact .inr ⟨fun _ h => (by cases h), List.mem_cons_self ..⟩
  · split at h
    · obtain ⟨rfl, succeeds, rfl⟩ := h
      exact .inr ⟨fun _ h => (by cases h), List.mem_cons_self ..⟩
    · obtain ⟨token, rfl, -, rfl⟩ := h
      exact .inl ⟨token, rfl, Dict.get?_set_self ..⟩

section

variable [DecidableEq ι] {blobPrefix : String} {t u : List (LeaseEvent ι)} {P : Threads ι} {i : ι}
  {key : Key} {timeout : Rat} {rounds : Nat} {r : Except Exn (Option String)} {token : String}

theorem LeaseRun.acquired (h : LeaseRun blobPrefix t P)
    (hend : Ended t i (.acquire key timeout rounds) r u) :
    (∀ lease, ∀ e ∈ u, Gets i lease e →
      (∃ token, r = .ok (some token) ∧ ∃ e ∈ u, Registers i key lease token e) ∨
        (∀ token, r ≠ .ok (some token)) ∧ ∃ e ∈ u, GivesBack i lease e) ∧
    ∀ token, r = .ok (some token) →
      ∃ lease, (∃ e ∈ u, Gets i lease e) ∧ ∃ e ∈ u, Registers i key lease token e := by
  obtain ⟨hno, t₁, W, W', t₂, rfl⟩ := hend
  obtain ⟨-, hplays⟩ := h.runs.transcript_of_leave (A := fun _ _ => True) hno fun _ _ _ _ _ _ => trivial
  have hmarks : Acquires key r ((Pool.opsOf i u).flatMap mark) := hplays.writes acquire_marks
  have hgot : ∀ lease, (∃ e ∈ u, Gets i lease e) ↔ .got lease ∈ (Pool.opsOf i u).flatMap mark := by
    intro lease
    rw [mem_marks_got]
    constructor
    · rintro ⟨e, he, hgets⟩
      unfold Gets at hgets
      split at hgets
      · obtain ⟨rfl, rfl⟩ := hgets
        exact ⟨_, Pool.mem_opsOf.mpr ⟨_, _, _, he⟩⟩
      · exact hgets.elim
    · rintro ⟨blob, hmem⟩
      obtain ⟨q, W₁, W₂, he⟩ := Pool.mem_opsOf.mp hmem
      exact ⟨_, he, rfl, rfl⟩
  rcases hmarks with ⟨hnone, hr⟩ | ⟨lease, hmarks⟩
  · refine ⟨fun lease e he hgets => ?_, fun token htoken => absurd htoken (hr token)⟩
    have hmem := (hgot lease).mp ⟨e, he, hgets⟩
    rw [hnone] at hmem
    exact absurd hmem List.not_mem_nil
  · have hregister : .registered key lease r ∈ (Pool.opsOf i u).flatMap mark := by
      rw [hmarks]
      exact List.mem_cons_of_mem _ (List.mem_singleton_self _)
    obtain ⟨q, W₁, W₂, hevent⟩ := Pool.mem_opsOf.mp (mem_marks_registered.mp hregister)
    have hstep : service.step (.register key lease) W₁ r W₂ :=
      h.runs.step_of_op (i := i) (l := q) (by simp [hevent])
    have hends := registerStep_ends hstep
    constructor
    · intro lease' e he hgets
      have hmem := (hgot lease').mp ⟨e, he, hgets⟩
      rw [hmarks] at hmem
      obtain rfl : lease' = lease := by simpa using hmem
      rcases hends with ⟨token, rfl, htracked⟩ | ⟨hr, hreleased⟩
      · exact .inl ⟨token, rfl, _, hevent, rfl, rfl, rfl, rfl, htracked⟩
      · exact .inr ⟨hr, _, hevent, rfl, rfl, hreleased⟩
    · rintro token rfl
      refine ⟨lease, (hgot lease).mpr (by rw [hmarks]; exact List.mem_cons_self ..), _, hevent, ?_⟩
      rcases hends with ⟨token', htoken, htracked⟩ | ⟨hr, -⟩
      · cases htoken
        exact ⟨rfl, rfl, rfl, rfl, htracked⟩
      · exact absurd rfl (hr token)

theorem LeaseRun.op (h : LeaseRun blobPrefix t P) {q : Request} {o : Op} {W W' : World} {a : o.Ans}
    (hmem : .op i q o W a W' ∈ t) : ∃ H H' : Ledger ι, H.world = W ∧ H'.world = W' ∧ Accounted H ∧
      (ledgerService i).step o H a H' ∧ Allowed i q o H := by
  obtain ⟨H, v, -, rfl, -, hv⟩ := h.ledger
  obtain ⟨e, he, hmap⟩ := List.mem_map.mp hmem
  cases e with
  | op j l o' H a' H' =>
    cases hmap
    exact ⟨H, H', rfl, rfl, hv _ he⟩
  | start j l H => exact nomatch hmap
  | leave j l p H => exact nomatch hmap

theorem Lock.pop_eq {L : Lock} (hstale : ∀ state, L.active.get? key = some state → state.token ≠ token) :
    L.pop key token = (none, L) := by
  rw [Lock.pop]
  split
  · rfl
  · next state hstate => rw [if_pos (hstale state hstate)]

theorem release_along : (Request.release key token |>.program blobPrefix).Along (fun _ _ => True)
    (fun o (w : Transcript interface) => o = Op.pop key token ∨
      ∃ state, ⟨Op.pop key token, some state⟩ ∈ w)
    (fun _ _ => True) [] := by
  refine Prog.along_call.mpr fun a _ => ⟨.inl rfl, ?_⟩
  cases a with
  | none => trivial
  | some state =>
    refine Prog.along_call.mpr fun lost _ => ⟨.inr ⟨state, List.mem_singleton_self _⟩, ?_⟩
    cases lost with
    | true => trivial
    | false =>
      refine Prog.along_call.mpr fun a _ => ⟨.inr ⟨state, ?_⟩, trivial⟩
      exact List.mem_append_left _ (List.mem_singleton_self _)

theorem LeaseRun.stale {t₁ t₂ : List (LeaseEvent ι)} {W₀ : World}
    (h : LeaseRun blobPrefix (t₁ ++ .start i (.release key token) W₀ :: (u ++ t₂)) P)
    (hno : ∀ q W, .start i q W ∉ u)
    (hstale : ∀ q W a W', .op i q (.pop key token) W a W' ∈ u →
      ∀ state, W.lock.active.get? key = some state → state.token ≠ token)
    {q : Request} {o : Op} {W W' : World} {a : o.Ans} (hmem : .op i q o W a W' ∈ u) : W' = W := by
  obtain ⟨u₁, u₂, rfl⟩ := List.append_of_mem hmem
  have hruns := h.runs
  rw [List.append_assoc, List.cons_append, ← List.cons_append, ← List.append_assoc] at hruns
  obtain ⟨P₁, h₁, h₂⟩ := hruns.split
  cases h₂ with
  | cons hstep _ =>
    cases hstep with
    | @op _ _ _ k _ _ hcall hs =>
      obtain ⟨rfl, hplays⟩ := h₁.transcript (A := fun _ _ => True)
        (fun q W hstart => hno q W (List.mem_append_left _ hstart)) (fun _ _ _ _ _ _ => trivial) hcall
      have htaken := hplays.before release_along (a := a) trivial
      rcases htaken with rfl | ⟨state, hpop⟩
      · obtain ⟨rfl, rfl⟩ := hs
        have heq := Lock.pop_eq (hstale _ _ _ _ hmem)
        rw [heq]
      · obtain ⟨q', W₁, W₂, hevent⟩ := Pool.mem_opsOf.mp hpop
        have hs' : service.step (.pop key token) W₁ (some state) W₂ :=
          h₁.step_of_op (i := i) (l := q') (by simp [hevent])
        have heq := Lock.pop_eq (hstale _ _ _ _ (List.mem_append_left _ hevent))
        exact nomatch hs'.1.trans (congrArg Prod.fst heq)

theorem Lock.recordRenewSuccess_active (L : Lock) (key : Key) (state : LeaseState) :
    (L.recordRenewSuccess key state).active = L.active := by
  rw [Lock.recordRenewSuccess]
  split <;> rfl

theorem Lock.handleRenewFailure_active (L : Lock) (key : Key) (state : LeaseState) (exc : Exn) :
    (L.handleRenewFailure key state exc).active = L.active := by
  rw [Lock.handleRenewFailure]
  split <;> rfl

theorem lost_record {L : Lock} {n m : Nat} {f : Health → Health} (hf : ∀ x, x.lost → (f x).lost)
    (h : (L.health m).lost) : ((L.record n f).health m).lost := by
  rw [health_record]
  split
  · next heq => exact hf _ (heq ▸ h)
  · exact h

theorem Lock.recordRenewSuccess_lost {L : Lock} {key : Key} {state : LeaseState} {n : Nat}
    (h : (L.health n).lost) : ((L.recordRenewSuccess key state).health n).lost := by
  rw [Lock.recordRenewSuccess]
  split
  · exact lost_record (fun _ hx => hx) h
  · exact h

theorem Lock.handleRenewFailure_lost {L : Lock} {key : Key} {state : LeaseState} {exc : Exn}
    {n : Nat} (h : (L.health n).lost) : ((L.handleRenewFailure key state exc).health n).lost := by
  rw [Lock.handleRenewFailure]
  split
  · refine lost_record (fun x hx => ?_) h
    split
    · rfl
    · change (x.lost || _) = true
      rw [hx, Bool.true_or]
  · exact h

def Lost (key : Key) (state : LeaseState) (W : World) : Prop :=
  W.lock.active.get? key = some state ∧ (W.lock.health state.lease).lost

def Clears (key : Key) (state : LeaseState) : Request → Op → Prop
  | .release key' token, .pop .. => key' = key ∧ token = state.token
  | .close, .takeAll => True
  | _, _ => False

def Admits (key : Key) : LeaseEvent ι → Prop
  | .op _ _ (.enter key') _ (.ok false) _ => key' = key
  | .op _ _ (.register key' _) _ (.ok (some _)) _ => key' = key
  | _ => False

theorem LeaseRun.lost (h : LeaseRun blobPrefix t P) {state : LeaseState} {q : Request} {o : Op}
    {W W' : World} {a : o.Ans} (hmem : .op i q o W a W' ∈ t) (hlost : Lost key state W) :
    Lost key state W' ∨ Clears key state q o := by
  obtain ⟨H, H', rfl, rfl, haccounted, ⟨hs, -⟩, hallowed⟩ := h.op hmem
  obtain ⟨htracked, hlost⟩ := hlost
  generalize H'.world = W' at hs ⊢
  by_cases ho : o.locking
  · cases o with
    | register key' lease =>
      left
      change registerStep key' lease H.world a W' at hs
      rw [registerStep] at hs
      split at hs
      · obtain ⟨-, succeeds, rfl⟩ := hs
        exact ⟨htracked, hlost⟩
      · next hnone =>
        split at hs
        · obtain ⟨-, succeeds, rfl⟩ := hs
          exact ⟨htracked, hlost⟩
        · obtain ⟨token, -, -, rfl⟩ := hs
          have hkey : key ≠ key' := by
            rintro rfl
            exact hnone (Option.isSome_of_eq_some htracked)
          have hlease : state.lease ≠ lease := by
            rintro rfl
            cases (haccounted.tracked htracked).1.symm.trans hallowed.2
          refine ⟨(Dict.get?_set_ne _ _ hkey).trans htracked, ?_⟩
          change (Function.update H.world.lock.health lease ⟨0, false⟩ state.lease).lost
          rw [Function.update_of_ne hlease]
          exact hlost
    | pop key' token =>
      obtain ⟨-, rfl⟩ := hs
      rw [Lock.pop]
      split
      · exact .inl ⟨htracked, hlost⟩
      · next state' hstate =>
        split
        · exact .inl ⟨htracked, hlost⟩
        · next htoken =>
          by_cases hkey : key = key'
          · subst hkey
            cases htracked.symm.trans hstate
            rw [not_not] at htoken
            rw [show q = .release key token from hallowed]
            exact .inr ⟨rfl, htoken.symm⟩
          · refine .inl ⟨?_, hlost⟩
            change (H.world.lock.active.erase key').get? key = some state
            rw [Dict.get?_erase, if_neg hkey]
            exact htracked
    | recordRenewSuccess key' state' =>
      cases hs
      refine .inl ⟨?_, Lock.recordRenewSuccess_lost hlost⟩
      rw [Lock.recordRenewSuccess_active]
      exact htracked
    | handleRenewFailure key' state' exc =>
      cases hs
      refine .inl ⟨?_, Lock.handleRenewFailure_lost hlost⟩
      rw [Lock.handleRenewFailure_active]
      exact htracked
    | setClosed =>
      cases hs
      exact .inl ⟨htracked, hlost⟩
    | takeAll =>
      rw [hallowed.1]
      exact .inr trivial
    | _ => cases ho
  · refine .inl ?_
    rw [Lost, lock_of_step hs (Bool.eq_false_iff.mpr ho)]
    exact ⟨htracked, hlost⟩

theorem LeaseRun.occupied {t₁ t₂ : List (LeaseEvent ι)} {state : LeaseState} {q : Request} {o : Op}
    {W W' : World} {a : o.Ans} (h : LeaseRun blobPrefix (t₁ ++ .op i q o W a W' :: (u ++ t₂)) P)
    (hlost : Lost key state W')
    (hkept : ∀ j q o W a W', .op j q o W a W' ∈ u → ¬ Clears key state q o) :
    (∀ j q o W a W', .op j q o W a W' ∈ u → Lost key state W') ∧ ∀ e ∈ u, ¬ Admits key e := by
  obtain ⟨P₁, -, h₁⟩ := h.runs.split
  obtain ⟨-, P₂, rfl, h₂⟩ := h₁.op
  have hbefore : ∀ {j q o W a W'}, .op j q o W a W' ∈ u → Lost key state W := by
    intro j q o W a W' hmem
    obtain ⟨u₁, u₂, rfl⟩ := List.append_of_mem hmem
    rw [List.append_assoc] at h₂
    obtain ⟨P₃, h₃, h₄⟩ := h₂.split
    obtain ⟨rfl, -⟩ := h₄.op
    refine h₃.keeps (fun j q o W a W' hmem hW => ?_) hlost
    refine (h.lost (i := j) (a := a) ?_ hW).resolve_right
      (hkept _ _ _ _ _ _ (List.mem_append_left _ hmem))
    simp [hmem]
  have hmem : ∀ {e : LeaseEvent ι}, e ∈ u → e ∈ t₁ ++ .op i q o W a P₂.store :: (u ++ t₂) := by
    intro e he
    simp [he]
  constructor
  · intro j q o W a W' he
    exact (h.lost (hmem he) (hbefore he)).resolve_right (hkept _ _ _ _ _ _ he)
  · intro e he hadmits
    unfold Admits at hadmits
    split at hadmits
    · subst hadmits
      obtain ⟨-, hanswer⟩ := h.runs.step_of_op (hmem he)
      rw [(hbefore he).1] at hanswer
      split at hanswer <;> cases hanswer
    · subst hadmits
      have hs := h.runs.step_of_op (hmem he)
      change registerStep _ _ _ _ _ at hs
      rw [registerStep, if_pos (Option.isSome_of_eq_some (hbefore he).1)] at hs
      cases hs.1
    · exact hadmits

def shut : (o : Op) × o.Ans → List Unit
  | ⟨.closed, true⟩ => [()]
  | ⟨.setClosed, _⟩ => [()]
  | _ => []

theorem close_shut : (Request.close.program blobPrefix).Writes (fun _ _ => True) shut
    fun _ w => w ≠ [] := by
  intro closed _
  cases closed with
  | true => exact List.cons_ne_nil _ _
  | false => exact fun _ _ => Prog.writes_of_all _ fun _ _ => List.cons_ne_nil _ _

theorem closed_of_step {o : Op} {W W' : World} {a : o.Ans} (h : service.step o W a W')
    (hclosed : W.lock.closed) : W'.lock.closed := by
  by_cases ho : o.locking
  · cases o with
    | register key lease =>
      change registerStep key lease W a W' at h
      rw [registerStep] at h
      split at h
      · obtain ⟨-, succeeds, rfl⟩ := h
        exact hclosed
      · obtain ⟨-, succeeds, rfl⟩ := h
        exact hclosed
    | pop key token =>
      rw [h.2, Lock.pop]
      split
      · exact hclosed
      · split <;> exact hclosed
    | recordRenewSuccess key state =>
      cases h
      rw [Lock.recordRenewSuccess]
      split <;> exact hclosed
    | handleRenewFailure key state exc =>
      cases h
      rw [Lock.handleRenewFailure]
      split <;> exact hclosed
    | setClosed =>
      cases h
      rfl
    | takeAll =>
      rw [h.2]
      exact hclosed
    | _ => cases ho
  · rw [lock_of_step h (Bool.eq_false_iff.mpr ho)]
    exact hclosed

theorem LeaseRun.closed (h : LeaseRun blobPrefix t P) (hend : Ended t i .close r u) :
    P.store.lock.closed := by
  obtain ⟨hno, t₁, W, W', t₂, rfl⟩ := hend
  obtain ⟨-, hplays⟩ := h.runs.transcript_of_leave (A := fun _ _ => True) hno fun _ _ _ _ _ _ => trivial
  obtain ⟨x, hx⟩ := List.exists_mem_of_ne_nil _ (hplays.writes close_shut)
  obtain ⟨⟨o, a⟩, hmem, hshut⟩ := List.mem_flatMap.mp hx
  obtain ⟨q, W₁, W₂, he⟩ := Pool.mem_opsOf.mp hmem
  have hs : service.step o W₁ a W₂ := h.runs.step_of_op (i := i) (l := q) (by simp [he])
  have hclosed : W₂.lock.closed := by
    unfold shut at hshut
    split at hshut
    · next heq =>
      cases heq
      rw [hs.1, ← hs.2]
    · next heq =>
      cases heq
      cases hs
      rfl
    · exact absurd hshut List.not_mem_nil
  obtain ⟨v₁, v₂, rfl⟩ := List.append_of_mem he
  have hruns := h.runs
  rw [List.append_assoc, List.cons_append, ← List.cons_append, ← List.append_assoc] at hruns
  obtain ⟨P₁, -, h₂⟩ := hruns.split
  obtain ⟨-, P₂, rfl, h₃⟩ := h₂.op
  exact h₃.keeps (fun _ _ _ _ _ _ hmem => closed_of_step (h₃.step_of_op hmem)) hclosed

def Quiet (kind : Request → Bool) (P : Threads ι) : Prop :=
  ∀ i q p, P.clients i = some (q, p) → kind q = false

theorem LeaseRun.settled (h : LeaseRun blobPrefix t P) (hclosed : P.store.lock.closed)
    (hacquire : Quiet Request.isAcquire P) (hclose : Quiet (· = .close) P) :
    P.store.lock.active = ∅ ∧ (Quiet Request.isRelease P → ∀ n < P.store.service.granted,
      n ∈ P.store.service.released ∨ (P.store.lock.health n).lost) := by
  obtain ⟨H, -, hworld, -, ⟨haccounted, hidle, hbusy⟩, -⟩ := h.ledger
  rw [← hworld] at hclosed ⊢
  have hnone : ∀ i, Idle i H ∨ ∃ q, Busy i q H ∧ q.isAcquire = false ∧ q ≠ .close ∧
      (Quiet Request.isRelease P → q.isRelease = false) := by
    intro i
    cases hi : P.clients i with
    | none => exact .inl (hidle i hi)
    | some c =>
      obtain ⟨q, p⟩ := c
      have hne := hclose i q p hi
      exact .inr ⟨q, (hbusy i q p hi).2, hacquire i q p hi, by simpa using hne,
        fun hrelease => hrelease i q p hi⟩
  have hswept : H.swept := by
    refine (haccounted.closing hclosed).elim id fun hsome => ?_
    obtain ⟨i, hi⟩ := Option.isSome_iff_exists.mp hsome
    rcases hnone i with hidle | ⟨q, hbusy, -, hne, -⟩
    · exact hidle.sweeper hi
    · exact (hbusy.sweeper hi).resolve_right hne
  have hempty := (haccounted.swept hswept).2
  refine ⟨hempty, fun hrelease n hn => ?_⟩
  rcases haccounted.settled hn with ⟨key, state, htracked, -⟩ | hheld | hdone
  · rw [Tracked, hempty] at htracked
    cases htracked
  · cases hcustody : H.custody n with
    | nobody => exact absurd hcustody hheld
    | acquiring i =>
      rcases hnone i with hidle | ⟨q, hbusy, hq, -⟩
      · exact absurd hcustody (hidle.acquiring n)
      · cases hq.symm.trans (hbusy.acquiring n hcustody)
    | leaving i =>
      rcases hnone i with hidle | ⟨q, hbusy, -, hne, hq⟩
      · exact absurd ((hidle.leaving n).mp hcustody) List.not_mem_nil
      · cases hbusy.leaving n hcustody with
        | inl h => cases (hq hrelease).symm.trans h
        | inr h => exact absurd h hne
  · exact hdone

end

/-- How the lock keeps its leases in the run `t`, which has come to `P`. -/
structure WellKept (t : List (LeaseEvent ι)) (P : Threads ι) : Prop where
  unique : ∀ {i q key lease W token W'}, .op i q (.register key lease) W (.ok (some token)) W' ∈ t →
    W.lock.active.get? key = none
  separate : ∀ {key key' state state'}, P.store.lock.active.get? key = some state →
    P.store.lock.active.get? key' = some state' → state.lease = state'.lease → key = key'
  acquired : ∀ {i key timeout rounds r u}, Ended t i (.acquire key timeout rounds) r u →
    (∀ lease, ∀ e ∈ u, Gets i lease e →
      (∃ token, r = .ok (some token) ∧ ∃ e ∈ u, Registers i key lease token e) ∨
        (∀ token, r ≠ .ok (some token)) ∧ ∃ e ∈ u, GivesBack i lease e) ∧
    ∀ token, r = .ok (some token) →
      ∃ lease, (∃ e ∈ u, Gets i lease e) ∧ ∃ e ∈ u, Registers i key lease token e
  stale : ∀ {t₁ i key token W₀ u t₂}, t = t₁ ++ .start i (.release key token) W₀ :: (u ++ t₂) →
    (∀ q W, .start i q W ∉ u) →
    (∀ q W a W', .op i q (.pop key token) W a W' ∈ u →
      ∀ state, W.lock.active.get? key = some state → state.token ≠ token) →
    ∀ {q o W a W'}, .op i q o W a W' ∈ u → W' = W
  occupied : ∀ {t₁ i q o W a W' u t₂ key state}, t = t₁ ++ .op i q o W a W' :: (u ++ t₂) →
    Lost key state W' →
    (∀ j q o W a W', .op j q o W a W' ∈ u → ¬ Clears key state q o) →
    (∀ j q o W a W', .op j q o W a W' ∈ u → Lost key state W') ∧ ∀ e ∈ u, ¬ Admits key e
  unreleased : (∀ {i q lease W a W'}, .op i q (.releaseLease lease) W a W' ∈ t →
      (W.lock.health lease).lost = false) ∧
    ∀ lease ∈ P.store.service.released, (P.store.lock.health lease).lost = false
  closed : ∀ {i r u}, Ended t i .close r u → Quiet (· = .close) P → Quiet Request.isAcquire P →
    P.store.lock.active = ∅ ∧ (Quiet Request.isRelease P → ∀ lease < P.store.service.granted,
      lease ∈ P.store.service.released ∨ (P.store.lock.health lease).lost)

section

variable [DecidableEq ι] {blobPrefix : String} {t : List (LeaseEvent ι)} {P : Threads ι}

theorem wellKept (h : LeaseRun blobPrefix t P) : WellKept t P := by
  obtain ⟨H, -, hworld, -, ⟨haccounted, -⟩, -⟩ := h.ledger
  refine ⟨?_, ?_, h.acquired, ?_, ?_, ⟨?_, ?_⟩, ?_⟩
  · intro i q key lease W token W' hmem
    have hs : registerStep key lease W _ W' := h.runs.step_of_op hmem
    rw [registerStep] at hs
    split at hs
    · cases hs.1
    · next hnone => exact Option.not_isSome_iff_eq_none.mp hnone
  · rw [← hworld]
    exact haccounted.separate
  · rintro t₁ i key token W₀ u t₂ rfl hno hstale q o W a W' hmem
    exact h.stale hno hstale hmem
  · rintro t₁ i q o W a W' u t₂ key state rfl hlost hkept
    exact h.occupied hlost hkept
  · intro i q lease W a W' hmem
    obtain ⟨H, -, rfl, -, -, -, hallowed⟩ := h.op hmem
    exact hallowed.2
  · rw [← hworld]
    exact fun lease hmem => (haccounted.released hmem).2
  · intro i r u hend hclose hacquire
    exact h.settled (h.closed hend) hacquire hclose

end

def answer : (o : Op) → World → Option (o.Ans × World)
  | .enter key, W =>
    some (if W.lock.closed then .error .closed else .ok (W.lock.active.get? key).isSome, W)
  | .uploadMarker _, W => some (.ok (), W)
  | .pollClosed, W => some (W.lock.closed, W)
  | .acquireLease blob, W =>
    if W.service.live blob = none then
      some (.ok W.service.granted, { W with service := W.service.grant blob })
    else none
  | .register key lease, W =>
    let token := String.ofList (List.replicate W.tokens.length 'x')
    if (W.lock.active.get? key).isSome || W.lock.closed || token ∈ W.tokens then none
    else some (.ok (some token),
      { W with lock := W.lock.register key lease token, tokens := token :: W.tokens })
  | .pop key token, W => some ((W.lock.pop key token).1, { W with lock := (W.lock.pop key token).2 })
  | .lost lease, W => some ((W.lock.health lease).lost, W)
  | .releaseLease lease, W => some (.ok (), { W with service := W.service.release lease true })
  | .closed, W => some (W.lock.closed, W)
  | .setClosed, W => some ((), { W with lock := { W.lock with closed := true } })
  | .takeAll, W => some (W.lock.active.items, { W with lock := { W.lock with active := ∅ } })
  | .entry key, W => some (W.lock.active.get? key, W)
  | .guardToken token, W => some ((), { W with tokens := token :: W.tokens })
  | _, _ => none

theorem answer_step {o : Op} {W W' : World} {a : o.Ans} (h : answer o W = some (a, W')) :
    service.step o W a W' := by
  cases o with
  | acquireLease blob =>
    rw [answer] at h
    split at h
    · next hfree =>
      cases h
      exact ⟨hfree, rfl, rfl⟩
    · cases h
  | register key lease =>
    rw [answer] at h
    split at h
    · cases h
    · next hopen =>
      cases h
      simp only [Bool.or_eq_true, decide_eq_true_eq, not_or] at hopen
      change registerStep key lease W _ _
      rw [registerStep, if_neg hopen.1.1, if_neg hopen.1.2]
      exact ⟨_, rfl, hopen.2, rfl⟩
  | enter key => cases h; exact ⟨rfl, rfl⟩
  | uploadMarker blob => cases h; rfl
  | pollClosed => cases h; exact ⟨rfl, rfl⟩
  | pop key token => cases h; exact ⟨rfl, rfl⟩
  | lost lease => cases h; exact ⟨rfl, rfl⟩
  | releaseLease lease => cases h; rfl
  | closed => cases h; exact ⟨rfl, rfl⟩
  | setClosed => cases h; rfl
  | takeAll => cases h; exact ⟨rfl, rfl⟩
  | entry key => cases h; exact ⟨rfl, rfl⟩
  | guardToken token => cases h; rfl
  | _ => cases h

def rehearse (schedule : List (Pool.Move ι Request)) [DecidableEq ι] :
    List (LeaseEvent ι) × Threads ι :=
  Pool.tryPlay (fun _ _ => answer) (Request.program "") schedule (Pool.idle World.fresh)

theorem leaseRun_rehearse [DecidableEq ι] (schedule : List (Pool.Move ι Request))
    (hfinished : ∀ e ∈ (rehearse schedule).1, e.Finished) :
    LeaseRun "" (rehearse schedule).1 (rehearse schedule).2 :=
  ⟨Pool.runs_tryPlay answer_step schedule _, hfinished⟩

def lateRelease : List (Pool.Move Nat Request) :=
  Pool.Move.calls 5 [(0, .acquire ("g", "t") 0 1)] ++
    [.start 0 (.release ("g", "t") ""), .op 0] ++
    Pool.Move.calls 3 [(1, .close)]

/-- A release has taken its entry out and has not yet given the lease back when close has ended. -/
theorem late_release : ∃ (t : List (LeaseEvent Nat)) (P : Threads Nat) (u : List (LeaseEvent Nat)),
    LeaseRun "" t P ∧ Ended t 1 .close (.ok none) u ∧ Quiet (· = .close) P ∧
      Quiet Request.isAcquire P ∧ P.store.service.granted = 1 ∧ P.store.service.released = [] ∧
      (P.store.lock.health 0).lost = false := by
  have hclients : ∀ i q p, (rehearse lateRelease).2.clients i = some (q, p) →
      q = .release ("g", "t") "" := by
    intro i q p h
    rcases i with _ | _ | i
    · cases h
      rfl
    · cases h
    · cases h
  refine ⟨_, _, [_, _, _], leaseRun_rehearse lateRelease (by decide +kernel),
    ⟨?_, [_, _, _, _, _, _, _, _, _], _, _, [], rfl⟩, ?_, ?_, by decide +kernel,
    by decide +kernel, by decide +kernel⟩
  · intro q W h
    simp at h
  · intro i q p h
    rw [hclients i q p h]
    rfl
  · intro i q p h
    rw [hclients i q p h]
    rfl

theorem wellKept_rehearsed : ∃ (t : List (LeaseEvent Nat)) (P : Threads Nat),
    LeaseRun "" t P ∧ WellKept t P ∧ P.store.service.released = [0] := by
  have h := leaseRun_rehearse (lateRelease ++ [.op 0, .op 0, .leave 0]) (by decide +kernel)
  exact ⟨_, _, h, wellKept h, by decide +kernel⟩

end LangGraphFunctions.Locks.AzureBlob
