import LangGraphFunctions.Lib.Exec

/-! Programs whose surroundings may answer anything, the transcripts of their runs, and what the
operations of a run leave behind. -/

namespace LangGraphFunctions.Lib

variable {I : Interface} {ε α β μ σ : Type}

abbrev Transcript (I : Interface) := List ((o : I.Op) × I.Ans o)

def Event.answers : Event I σ → Transcript I
  | .env .. => []
  | .call o _ a _ => [⟨o, a⟩]

namespace Prog

/-- Every answer that `A` admits may be given, and is written down. -/
def recorder (A : (o : I.Op) → I.Ans o → Prop) : Service I (Transcript I) where
  step o w a w' := A o a ∧ w' = w ++ [⟨o, a⟩]

/-- Answered as in `w`, the program has come to `q`. -/
def Plays (A : (o : I.Op) → I.Ans o → Prop) (p : Prog I ε α) (w : Transcript I)
    (q : Prog I ε α) : Prop :=
  ∃ t, Exec (recorder A) Eq p [] t q w

def Service.recorded (S : Service I σ) : Service I (σ × Transcript I) where
  step o s a s' := S.step o s.1 a s'.1 ∧ s'.2 = s.2 ++ [⟨o, a⟩]

def Recorded (w : Transcript I) (o : I.Op) (a : I.Ans o) : Prop := ⟨o, a⟩ ∈ w

theorem recorded_last (w : Transcript I) (o : I.Op) (a : I.Ans o) : Recorded (w ++ [⟨o, a⟩]) o a :=
  List.mem_append_right _ List.mem_cons_self

theorem Recorded.later {w : Transcript I} {o : I.Op} {a : I.Ans o} (h : Recorded w o a)
    (x : (o : I.Op) × I.Ans o) : Recorded (w ++ [x]) o a := List.mem_append_left _ h

variable {A : (o : I.Op) → I.Ans o → Prop} {mark : (o : I.Op) × I.Ans o → List μ}

abbrev Along (A : (o : I.Op) → I.Ans o → Prop) (G : (o : I.Op) → Transcript I → Prop)
    (Q : Except ε α → Transcript I → Prop) (p : Prog I ε α) (w : Transcript I) : Prop :=
  p.Safe (recorder A) Eq (fun o w _ _ => G o w) Q w

variable {G : (o : I.Op) → Transcript I → Prop}

theorem along_call {Q : Except ε α → Transcript I → Prop} {o : I.Op} {k : I.Ans o → Prog I ε α}
    {w : Transcript I} : (Prog.call o k).Along A G Q w ↔
      ∀ a, A o a → G o w ∧ (k a).Along A G Q (w ++ [⟨o, a⟩]) := by
  constructor
  · exact fun h a ha => h w rfl a _ ⟨ha, rfl⟩
  · rintro h _ rfl a _ ⟨ha, rfl⟩
    exact h a ha

theorem Plays.along {Q : Except ε α → Transcript I → Prop} {p : Prog I ε α} {w : Transcript I}
    {q : Prog I ε α} (h : p.Plays A w q) (hp : p.Along A G Q []) : q.Along A G Q w := by
  obtain ⟨t, ht⟩ := h
  exact (ht.safe (fun _ => rfl) (fun h h' => h.trans h') hp).1

theorem Plays.before {Q : Except ε α → Transcript I → Prop} {p : Prog I ε α} {w : Transcript I}
    {o : I.Op} {k : I.Ans o → Prog I ε α} (h : p.Plays A w (.call o k)) (hp : p.Along A G Q [])
    {a : I.Ans o} (ha : A o a) : G o w :=
  (along_call.mp (h.along hp) a ha).1

theorem along_of_plays {p : Prog I ε α} (h : ∀ w o (k : I.Ans o → Prog I ε α) a,
    p.Plays A w (.call o k) → A o a → G o w) : p.Along A G (fun _ _ => True) [] := by
  suffices hfrom : ∀ (p : Prog I ε α) (w₀ : Transcript I), (∀ t w o (k : I.Ans o → Prog I ε α) a,
      Exec (recorder A) Eq p w₀ t (.call o k) w → A o a → G o w) →
      p.Along A G (fun _ _ => True) w₀ from
    hfrom p [] fun t w o k a ht ha => h w o k a ⟨t, ht⟩ ha
  intro p
  induction p with
  | ret a => exact fun _ _ => trivial
  | raise e => exact fun _ _ => trivial
  | call o k ih =>
    intro w₀ h
    refine along_call.mpr fun a ha => ⟨h _ _ o k a .stop ha, ih a _ ?_⟩
    exact fun t w o' k' a' ht ha' => h _ w o' k' a' (.call ⟨ha, rfl⟩ ht) ha'

theorem plays_nil (p : Prog I ε α) : p.Plays A [] p := ⟨[], .stop⟩

def answered (f : (o : I.Op) → Option (I.Ans o)) : Prog I ε α → Option (Transcript I × Except ε α)
  | .ret a => some ([], .ok a)
  | .raise e => some ([], .error e)
  | .call o k => do
    let a ← f o
    let (w, r) ← (k a).answered f
    return (⟨o, a⟩ :: w, r)

theorem plays_answered {f : (o : I.Op) → Option (I.Ans o)} (hf : ∀ o a, f o = some a → A o a)
    {p : Prog I ε α} {w : Transcript I} {r : Except ε α} (h : p.answered f = some (w, r)) :
    p.Plays A w (.ofExcept r) := by
  suffices hfrom : ∀ w₀, ∃ t, Exec (recorder A) Eq p w₀ t (.ofExcept r) (w₀ ++ w) from hfrom []
  induction p generalizing w with
  | ret a =>
    cases h
    exact fun w₀ => ⟨[], by rw [List.append_nil]; exact .stop⟩
  | raise e =>
    cases h
    exact fun w₀ => ⟨[], by rw [List.append_nil]; exact .stop⟩
  | call o k ih =>
    intro w₀
    obtain ⟨a, ha, h⟩ := Option.bind_eq_some_iff.mp h
    obtain ⟨⟨w', r'⟩, hrest, ⟨⟩⟩ := Option.bind_eq_some_iff.mp h
    obtain ⟨t, ht⟩ := ih a hrest (w₀ ++ [⟨o, a⟩])
    rw [List.append_assoc] at ht
    exact ⟨_, .call ⟨hf o a ha, rfl⟩ ht⟩

theorem answered_bind_ret {f : (o : I.Op) → Option (I.Ans o)} {p : Prog I ε α} {w : Transcript I}
    {a : α} (g : α → β) (h : p.answered f = some (w, .ok a)) :
    (p >>= fun a => .ret (g a)).answered f = some (w, .ok (g a)) := by
  induction p generalizing w with
  | ret b =>
    cases h
    rfl
  | raise e => cases h
  | call o k ih =>
    obtain ⟨b, hb, h⟩ := Option.bind_eq_some_iff.mp h
    obtain ⟨⟨w', r⟩, hrest, ⟨⟩⟩ := Option.bind_eq_some_iff.mp h
    rw [call_bind, answered, hb, Option.bind_eq_bind, Option.bind_some, ih b hrest]
    rfl

/-- However it is answered, the outcome of `p` and the marks its operations leave meet `S`. -/
def Writes (A : (o : I.Op) → I.Ans o → Prop) (mark : (o : I.Op) × I.Ans o → List μ) :
    Prog I ε α → (Except ε α → List μ → Prop) → Prop
  | .ret a, S => S (.ok a) []
  | .raise e, S => S (.error e) []
  | .call o k, S => ∀ a, A o a → (k a).Writes A mark fun r u => S r (mark ⟨o, a⟩ ++ u)

variable {S : Except ε α → List μ → Prop} {T : Except ε β → List μ → Prop} {p : Prog I ε α}

theorem Writes.mono {S' : Except ε α → List μ → Prop} (h : p.Writes A mark S)
    (hS : ∀ r u, S r u → S' r u) : p.Writes A mark S' := by
  induction p generalizing S S' with
  | ret a => exact hS _ _ h
  | raise e => exact hS _ _ h
  | call o k ih => exact fun a ha => ih a (h a ha) fun r u => hS r _

theorem writes_of_all (p : Prog I ε α) (hS : ∀ r u, S r u) : p.Writes A mark S := by
  induction p generalizing S with
  | ret a => exact hS _ _
  | raise e => exact hS _ _
  | call o k ih => exact fun a _ => ih a fun r u => hS r _

theorem writes_bind {f : α → Prog I ε β} (h : p.Writes A mark S)
    (hok : ∀ a u, S (.ok a) u → (f a).Writes A mark fun r v => T r (u ++ v))
    (herror : ∀ e u, S (.error e) u → T (.error e) u) : (p.bind f).Writes A mark T := by
  induction p generalizing S T with
  | ret a => exact hok a [] h
  | raise e => exact herror e [] h
  | call o k ih =>
    intro a ha
    refine ih a (h a ha) (fun b u hu => ?_) fun e u hu => herror e _ hu
    refine (hok b _ hu).mono fun r v hv => ?_
    rwa [List.append_assoc] at hv

theorem writes_attempt {T : Except ε (Except ε α) → List μ → Prop} (h : p.Writes A mark S)
    (hS : ∀ r u, S r u → T (.ok r) u) : p.attempt.Writes A mark T := by
  induction p generalizing S T with
  | ret a => exact hS _ _ h
  | raise e => exact hS _ _ h
  | call o k ih => exact fun a ha => ih a (h a ha) fun r u => hS r _

theorem writes_handle {h : ε → Prog I ε α} {S' : Except ε α → List μ → Prop}
    (hp : p.Writes A mark S) (hok : ∀ a u, S (.ok a) u → S' (.ok a) u)
    (herror : ∀ e u, S (.error e) u → (h e).Writes A mark fun r v => S' r (u ++ v)) :
    (p.handle h).Writes A mark S' := by
  induction p generalizing S S' with
  | ret a => exact hok _ _ hp
  | raise e => exact herror _ _ hp
  | call o k ih =>
    intro a ha
    refine ih a (hp a ha) (fun b u => hok b _) fun e u hu => ?_
    refine (herror e _ hu).mono fun r v hv => ?_
    rwa [List.append_assoc] at hv

theorem writes_ofExcept {r : Except ε α} (h : S r []) :
    (ofExcept r : Prog I ε α).Writes A mark S := by
  cases r <;> exact h

theorem writes_andFinally {cleanup : Prog I ε Unit} {U : Except ε Unit → List μ → Prop}
    {V : Except ε α → List μ → Prop} (h : p.Writes A mark S) (hc : cleanup.Writes A mark U)
    (hok : ∀ r u v, S r u → U (.ok ()) v → V r (u ++ v))
    (herror : ∀ r e u v, S r u → U (.error e) v → V (.error e) (u ++ v)) :
    (p.andFinally cleanup).Writes A mark V := by
  refine writes_bind (S := fun r u => ∃ r', r = .ok r' ∧ S r' u)
    (writes_attempt h fun r u hr => ⟨r, rfl, hr⟩) ?_ ?_
  · rintro r u ⟨_, ⟨⟩, hr⟩
    refine writes_bind hc (fun _ v hv => ?_) fun e v hv => herror r e u v hr hv
    apply writes_ofExcept
    rw [List.append_nil]
    exact hok r u v hr hv
  · rintro e u ⟨r, h, -⟩
    exact nomatch h

theorem writes_foldlM {γ : Type} {body : γ → α → Prog I ε γ} {xs : List α}
    (Inv : List α → γ → List μ → Prop)
    (hbody : ∀ done x rest acc u, xs = done ++ x :: rest → Inv done acc u →
      (body acc x).Writes A mark fun r v => ∀ acc', r = .ok acc' → Inv (done ++ [x]) acc' (u ++ v))
    {acc : γ} (hinit : Inv [] acc []) :
    (xs.foldlM body acc).Writes A mark fun r u => ∀ acc', r = .ok acc' → Inv xs acc' u := by
  suffices h : ∀ rest done acc u, xs = done ++ rest → Inv done acc u →
      (rest.foldlM body acc).Writes A mark fun r v => ∀ acc', r = .ok acc' → Inv xs acc' (u ++ v) from
    h xs [] acc [] rfl hinit
  intro rest
  induction rest with
  | nil =>
    intro done acc u hxs hinv acc' hacc
    cases hacc
    rw [List.append_nil] at hxs ⊢
    exact hxs ▸ hinv
  | cons x rest ih =>
    intro done acc u hxs hinv
    rw [List.foldlM_cons]
    apply writes_bind (hbody done x rest acc u hxs hinv)
    · intro acc' v hv
      apply Writes.mono (ih (done ++ [x]) acc' (u ++ v) (by simpa using hxs) (hv acc' rfl))
      intro r w hw
      rwa [List.append_assoc] at hw
    · intro e v _ acc' hacc
      cases hacc

theorem writes_forM {body : α → Prog I ε PUnit} {xs : List α} {P : α → List μ → Prop}
    (hbody : ∀ x ∈ xs, (body x).Writes A mark fun r u => ∀ a, r = .ok a → P x u) :
    (xs.forM body).Writes A mark fun r u => ∀ a, r = .ok a → ∀ x ∈ xs, ∃ v, P x v ∧ v ⊆ u := by
  induction xs with
  | nil => exact fun _ _ x hx => (List.not_mem_nil hx).elim
  | cons x xs ih =>
    refine writes_bind (hbody x List.mem_cons_self) (fun a u hu => ?_) fun e u _ a h => by cases h
    refine (ih fun y hy => hbody y (List.mem_cons_of_mem x hy)).mono fun r v hv b hr y hy => ?_
    rcases List.mem_cons.mp hy with rfl | hy
    · exact ⟨u, hu a rfl, List.subset_append_left u v⟩
    · obtain ⟨w, hw, hsub⟩ := hv b hr y hy
      exact ⟨w, hw, List.subset_append_of_subset_right u hsub⟩

theorem Plays.writes {w : Transcript I} {r : Except ε α} (h : p.Plays A w (.ofExcept r))
    (hp : p.Writes A mark S) : S r (w.flatMap mark) := by
  obtain ⟨t, ht⟩ := h
  suffices hsafe : ∀ (p : Prog I ε α) (S : Except ε α → List μ → Prop) (w : Transcript I),
      (p.Writes A mark fun r u => S r (w.flatMap mark ++ u)) →
      p.Along A (fun _ _ => True) (fun r w => S r (w.flatMap mark)) w by
    have hend := Plays.along ⟨t, ht⟩ (hsafe p S [] hp)
    cases r <;> exact hend
  intro p
  induction p with
  | ret a =>
    intro S w h
    change S (.ok a) (_ ++ []) at h
    rwa [List.append_nil] at h
  | raise e =>
    intro S w h
    change S (.error e) (_ ++ []) at h
    rwa [List.append_nil] at h
  | call o k ih =>
    intro S w h
    refine along_call.mpr fun a ha => ⟨trivial, ih a S _ ((h a ha).mono fun r u hu => ?_)⟩
    rwa [List.flatMap_append, List.flatMap_singleton, List.append_assoc]

end Prog

theorem Exec.recorded {S : Prog.Service I σ} {p q : Prog I ε α} {s s' : σ} {t : List (Event I σ)}
    (h : Exec S Eq p s t q s') (w : Transcript I) :
    ∃ t', Exec S.recorded Eq p (s, w) t' q (s', w ++ t.flatMap Event.answers) := by
  induction h generalizing w with
  | stop => exact ⟨[], by rw [List.flatMap_nil, List.append_nil]; exact .stop⟩
  | env hs _ ih =>
    subst hs
    exact ih w
  | @call o s a s' k t q s'' hs _ ih =>
    obtain ⟨t', ht⟩ := ih (w ++ [⟨o, a⟩])
    rw [List.append_assoc] at ht
    exact ⟨_, .call ⟨hs, rfl⟩ ht⟩

end LangGraphFunctions.Lib
