import LangGraphFunctions.Locks.Custody

/-! What each call of the lock keeps to, whatever the others do meanwhile. -/

namespace LangGraphFunctions.Locks.AzureBlob

open Lib

variable {ι : Type} {i : ι} {q : Request} {H H' : Ledger ι} {W : World} {key : Key}
  {state : LeaseState}

def Given (i : ι) : Except Exn (Option Nat) → Ledger ι → Prop
  | .ok (some lease), H => H.custody lease = .acquiring i ∧ (∀ n, H.custody n = .acquiring i → n = lease) ∧
    (∀ n, H.custody n ≠ .leaving i) ∧ (H.sweeper = some i → H.swept)
  | _, H => Idle i H

theorem Given.spared {r : Except Exn (Option Nat)} (h : Given i r H) (hR : Spares i H H') :
    Given i r H' := by
  rcases r with e | (_ | lease)
  · exact Leaving.spared h hR
  · exact Leaving.spared h hR
  · obtain ⟨hheld, honly, hnot, hsweeper⟩ := h
    refine ⟨(hR.acquiring lease).mpr hheld, fun n hn => honly n ((hR.acquiring n).mp hn),
      fun n hn => hnot n ((hR.leaving n).mp hn), fun hs => hR.swept (hsweeper (hR.sweeper hs))⟩

structure Rely (i : ι) (H H' : Ledger ι) : Prop extends Spares i H H' where
  accounted : Accounted H → Accounted H'

def Op.quiet : Op → Bool
  | .acquireLease _ => false
  | .register .. => false
  | .pop .. => false
  | .lost _ => false
  | .releaseLease _ => false
  | .setClosed => false
  | .takeAll => false
  | _ => true

theorem allowed_quiet {o : Op} (ho : o.quiet) (i : ι) (q : Request) (H : Ledger ι) :
    Allowed i q o H := by
  cases o <;> first | exact trivial | exact nomatch ho

section

variable [DecidableEq ι]

abbrev Meets (i : ι) (q : Request) {α : Type} (p : Call α) (Q : Except Exn α → Ledger ι → Prop)
    (H : Ledger ι) : Prop :=
  p.Safe (ledgerService i) (Rely i) (fun o H _ _ => Allowed i q o H) Q H

theorem note_quiet {o : Op} (ho : o.quiet) (H : Ledger ι) (i : ι) (a : o.Ans) : H.note i o a = H := by
  cases o <;> first | rfl | exact nomatch ho

variable {α : Type} {ns : List Nat} {Q : Except Exn α → Ledger ι → Prop}

theorem meets_quiet {o : Op} {k : o.Ans → Call α} (ho : o.quiet)
    (hk : ∀ a H', Leaving i ns H' → Meets i q (k a) Q H') (h : Leaving i ns H) :
    Meets i q (.call o k) Q H := by
  intro H₁ hR a H₂ hs
  refine ⟨allowed_quiet ho i q H₁, hk a H₂ ?_⟩
  rw [hs.2, Ledger.next, note_quiet ho]
  exact (h.spared hR.toSpares).world _

theorem giveUp_meets {Q : Except Exn Unit → Ledger ι → Prop} (hn : state.lease ∉ ns)
    (hQ : ∀ H', Leaving i ns H' → Q (.ok ()) H') (h : Leaving i (state.lease :: ns) H) :
    Meets i q (giveUp state) Q H := by
  intro H₁ hR₁ a H₂ hs
  refine ⟨trivial, ?_⟩
  have h₁ := h.spared hR₁.toSpares
  have hheld : H₁.custody state.lease = .leaving i := (h₁.leaving _).mpr (List.mem_cons_self ..)
  obtain ⟨⟨hworld, rfl⟩, hnext⟩ := hs
  cases hlost : (H₁.world.lock.health state.lease).lost with
  | true =>
    rw [hlost] at hnext
    refine hQ H₂ ?_
    rw [hnext]
    change Leaving i ns { (if H₁.custody state.lease = .leaving i then
      H₁.give state.lease .nobody else H₁) with world := H₂.world }
    rw [if_pos hheld]
    exact h₁.give hn
  | false =>
    have hsame : H₂ = H₁ := by
      rw [hnext, hlost, hworld]
      rfl
    rw [hsame]
    intro H₃ hR₃ b H₄ hs
    have h₃ := h₁.spared hR₃.toSpares
    have hheld₃ := (h₃.leaving state.lease).mpr (List.mem_cons_self ..)
    refine ⟨⟨hheld₃, by rw [hR₃.health _ hheld, hlost]⟩, hQ H₄ ?_⟩
    rw [hs.2]
    exact h₃.give hn

theorem giveUp_all_meets {entries : List (Key × LeaseState)}
    (hnodup : (entries.map (·.2.lease)).Nodup) {Q : Except Exn Unit → Ledger ι → Prop}
    (hQ : ∀ H', Idle i H' → Q (.ok ()) H') (h : Leaving i (entries.map (·.2.lease)) H) :
    Meets i q (entries.forM fun x => giveUp x.2) Q H := by
  induction entries generalizing H with
  | nil => exact hQ H h
  | cons x entries ih =>
    obtain ⟨hx, hnodup⟩ := List.nodup_cons.mp hnodup
    refine Prog.safe_bind.mpr (giveUp_meets hx (fun H' h' => ?_) h)
    exact ih hnodup h'

theorem ensureMarker_meets {blob : String} {Q : Except Exn Unit → Ledger ι → Prop}
    (hQ : ∀ r H', Idle i H' → Q r H') (h : Idle i H) : Meets i q (ensureMarker blob) Q H := by
  refine meets_quiet rfl (fun a H' h' => ?_) h
  cases a with
  | ok _ => exact hQ _ _ h'
  | error e =>
    cases e with
    | http e =>
      change Meets i q (if e.isLeaseConflict then return else .raise (.http e)) Q H'
      split <;> exact hQ _ _ h'
    | _ => exact hQ _ _ h'

theorem deadlineOf_meets {timeout : Rat} {Q : Except Exn Rat → Ledger ι → Prop}
    (hQ : ∀ r H', Idle i H' → Q r H') (h : Idle i H) : Meets i q (deadlineOf timeout) Q H := by
  rw [deadlineOf]
  split
  · exact meets_quiet rfl (fun a H' h' => hQ _ _ h') h
  · exact hQ _ _ h

theorem poll_meets {blob : String} {timeout deadline : Rat} {rounds : Nat} (hq : q.isAcquire)
    (h : Idle i H) : Meets i q (poll blob timeout deadline rounds) (Given i) H := by
  induction rounds generalizing H with
  | zero => exact meets_quiet rfl (fun never => nomatch never) h
  | succ rounds ih =>
    refine meets_quiet rfl (fun closed H₁ h₁ => ?_) h
    change Meets i q (if closed then _ else _) _ _
    split
    · exact h₁
    · intro H₂ hR a H₃ hs
      refine ⟨hq, ?_⟩
      have h₂ := h₁.spared hR.toSpares
      cases a with
      | ok lease =>
        have hcustody := H₂.custody_give lease (.acquiring i)
        rw [hs.2]
        refine ⟨?_, fun n hn => ?_, fun n hn => ?_, h₂.sweeper⟩
        · exact (hcustody lease).trans (if_pos rfl)
        · by_contra hne
          exact h₂.acquiring n (((hcustody n).trans (if_neg hne)).symm.trans hn)
        · have hn := (hcustody n).symm.trans hn
          split at hn
          · exact nomatch hn
          · exact absurd ((h₂.leaving n).mp hn) List.not_mem_nil
      | error e =>
        have h₃ : Idle i H₃ := by
          rw [hs.2]
          exact ⟨h₂.leaving, h₂.acquiring, h₂.sweeper⟩
        change Meets i q (if _ then _ else if _ then _ else _) _ _
        split
        · exact h₃
        · split
          · exact h₃
          · refine meets_quiet rfl (fun now H₄ h₄ => ?_) h₃
            change Meets i q (if _ then _ else _) _ _
            split
            · exact h₄
            · refine meets_quiet rfl (fun now H₅ h₅ => ?_) h₄
              exact meets_quiet rfl (fun _ H₆ h₆ => ih h₆) h₅

theorem Given.registered {lease : Nat} {a : Except Exn (Option String)}
    (h : Given i (.ok (some lease)) H) : Idle i (H.next i (.register key lease) a W) := by
  obtain ⟨-, honly, hnot, hsweeper⟩ := h
  suffices hcustody : ∀ n, (H.next i (.register key lease) a W).custody n =
      if n = lease then .nobody else H.custody n by
    refine ⟨fun n => iff_of_false ?_ List.not_mem_nil, fun n => ?_, ?_⟩
    · rw [hcustody]
      split
      · exact nofun
      · exact hnot n
    · rw [hcustody]
      split
      · exact nofun
      · next hne => exact fun hn => hne (honly n hn)
    · rcases a with e | (_ | token) <;> exact hsweeper
  rcases a with e | (_ | token) <;> exact H.custody_give lease .nobody

theorem acquire_meets {blobPrefix : String} {key : Key} {timeout : Rat} {rounds : Nat}
    (h : Idle i H) :
    Meets i (.acquire key timeout rounds) (acquire blobPrefix key timeout rounds)
      (fun _ H' => Idle i H') H := by
  refine meets_quiet rfl (fun a H₁ h₁ => ?_) h
  cases a with
  | error e => exact h₁
  | ok occupied =>
    change Meets i _ (if occupied then _ else _) _ _
    split
    · exact h₁
    · refine Prog.safe_bind.mpr (ensureMarker_meets (fun r H₂ h₂ => ?_) h₁)
      cases r with
      | error e => exact h₂
      | ok _ =>
        refine Prog.safe_bind.mpr (deadlineOf_meets (fun r H₃ h₃ => ?_) h₂)
        cases r with
        | error e => exact h₃
        | ok deadline =>
          refine Prog.safe_bind.mpr ((poll_meets rfl h₃).mono fun r H₄ h₄ => ?_)
          rcases r with e | (_ | lease)
          · exact h₄
          · exact h₄
          · intro H₅ hR a H₆ hs
            have h₅ := h₄.spared hR.toSpares
            refine ⟨⟨rfl, h₅.1⟩, Prog.safe_ofExcept ?_⟩
            rw [hs.2]
            exact h₅.registered

theorem release_meets {key : Key} {token : String} (h : Idle i H) :
    Meets i (.release key token) (release key token) (fun _ H' => Idle i H') H := by
  intro H₁ hR a H₂ hs
  refine ⟨rfl, ?_⟩
  have h₁ := h.spared hR.toSpares
  cases a with
  | none =>
    change Idle i H₂
    rw [hs.2]
    exact h₁.world _
  | some state =>
    refine giveUp_meets List.not_mem_nil (fun _ h' => h') ?_
    rw [hs.2]
    have hcustody := H₁.custody_give state.lease (.leaving i)
    refine ⟨fun n => ?_, fun n => ?_, h₁.sweeper⟩
    · change (H₁.give state.lease (.leaving i)).custody n = _ ↔ _
      rw [hcustody, List.mem_singleton]
      split
      · next heq => exact iff_of_true rfl heq
      · next hne => exact iff_of_false (fun hn => List.not_mem_nil ((h₁.leaving n).mp hn)) hne
    · change (H₁.give state.lease (.leaving i)).custody n ≠ _
      rw [hcustody]
      split
      · exact nofun
      · exact h₁.acquiring n

theorem recordRenewal_meets {key : Key} {renewal : Renewal} {Q : Except Exn Unit → Ledger ι → Prop}
    (hQ : ∀ r H', Idle i H' → Q r H') (h : Idle i H) :
    Meets i q (recordRenewal key state renewal) Q H := by
  cases renewal with
  | success => exact meets_quiet rfl (fun _ H' h' => hQ _ _ h') h
  | failure exc => exact meets_quiet rfl (fun _ H' h' => hQ _ _ h') h
  | cancelled => exact hQ _ _ h

theorem forM_meets {β : Type} {xs : List β} {f : β → Call Unit}
    (hf : ∀ x {Q : Except Exn Unit → Ledger ι → Prop} {H : Ledger ι}, (∀ r H', Idle i H' → Q r H') →
      Idle i H → Meets i q (f x) Q H) (h : Idle i H) :
    Meets i q (xs.forM f) (fun _ H' => Idle i H') H := by
  induction xs generalizing H with
  | nil => exact h
  | cons x xs ih =>
    refine Prog.safe_bind.mpr (hf x (fun r H' h' => ?_) h)
    cases r with
    | error e => exact h'
    | ok _ => exact ih h'

theorem renewAllOnce_meets {autoRenew : Bool} (h : Idle i H) :
    Meets i q (renewAllOnce autoRenew) (fun _ H' => Idle i H') H := by
  refine meets_quiet rfl (fun snapshot H₁ h₁ => ?_) h
  change Meets i q (if _ then _ else _) _ _
  split
  · refine meets_quiet rfl (fun outcomes H₂ h₂ => ?_) h₁
    cases outcomes with
    | error e => exact h₂
    | ok outcomes => exact forM_meets (fun x Q H => recordRenewal_meets) h₂
  · refine forM_meets (fun x Q H hQ h => ?_) h₁
    refine meets_quiet rfl (fun renewed H₂ h₂ => ?_) h
    cases renewed with
    | ok _ =>
      change Meets i q (recordRenewal x.1 x.2 .success) Q H₂
      exact recordRenewal_meets hQ h₂
    | error exc =>
      change Meets i q (recordRenewal x.1 x.2 (.failure exc)) Q H₂
      exact recordRenewal_meets hQ h₂

theorem check_meets {key : Key} {token : String} (h : Idle i H) :
    Meets i q (check key token) (fun _ H' => Idle i H') H := by
  refine meets_quiet rfl (fun closed H₁ h₁ => ?_) h
  cases closed with
  | true => exact h₁
  | false =>
    refine meets_quiet rfl (fun entry H₂ h₂ => ?_) h₁
    cases entry with
    | none => exact h₂
    | some state =>
      change Meets i q ((if state.token ≠ token then _ else _) >>= _) _ _
      split
      · exact h₂
      · intro H₃ hR lost H₄ hs
        refine ⟨trivial, ?_⟩
        have h₃ := h₂.spared hR.toSpares
        have h₄ : Idle i H₄ := by
          rw [hs.2]
          cases lost with
          | false => exact h₃.world _
          | true =>
            change Idle i { (if H₃.custody state.lease = .leaving i then
              H₃.give state.lease .nobody else H₃) with world := H₄.world }
            rw [if_neg fun hn => List.not_mem_nil ((h₃.leaving _).mp hn)]
            exact h₃.world _
        cases lost <;> exact h₄

theorem close_meets (haccounted : Accounted H) (h : Idle i H) :
    Meets i .close close (fun _ H' => Idle i H') H := by
  intro H₁ hR₁ closed H₂ hs₂
  refine ⟨trivial, ?_⟩
  have h₂ : Idle i H₂ := by
    rw [hs₂.2]
    exact (h.spared hR₁.toSpares).world _
  have haccounted₂ := (hR₁.accounted haccounted).step (q := .close) hs₂ trivial
  cases closed with
  | true => exact h₂
  | false =>
    intro H₃ hR₃ _ H₄ hs₄
    refine ⟨rfl, ?_⟩
    have h₃ := h₂.spared hR₃.toSpares
    have haccounted₄ := (hR₃.accounted haccounted₂).step (q := .close) hs₄ rfl
    have hclosed₄ : H₄.world.lock.closed := by rw [hs₄.1]
    intro H₅ hR₅ remaining H₆ hs₆
    have hclosed₅ := hR₅.closed hclosed₄
    refine ⟨⟨rfl, hclosed₅⟩, ?_⟩
    have haccounted₅ := hR₅.accounted haccounted₄
    obtain rfl : remaining = H₅.world.lock.active.items := hs₆.1.1
    refine giveUp_all_meets haccounted₅.nodup (fun _ h' => h') ?_
    rw [hs₆.2]
    refine ⟨fun n => ?_, fun n => ?_, fun _ => rfl⟩
    · change (if n ∈ H₅.world.lock.active.items.map (·.2.lease) then _ else _) = _ ↔ _
      split
      · next hmem => exact iff_of_true rfl hmem
      · next hnot =>
        refine iff_of_false (fun hn => ?_) hnot
        rw [hR₅.leaving, hs₄.2] at hn
        exact List.not_mem_nil ((h₃.leaving n).mp hn)
    · change (if n ∈ H₅.world.lock.active.items.map (·.2.lease) then _ else _) ≠ _
      split
      · exact nofun
      · intro hn
        rw [hR₅.acquiring, hs₄.2] at hn
        exact h₃.acquiring n hn

end

end LangGraphFunctions.Locks.AzureBlob
