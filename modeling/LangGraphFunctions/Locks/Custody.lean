import LangGraphFunctions.Locks.AzureBlob

/-! Who answers for each lease of the lock, over every interleaving. -/

namespace LangGraphFunctions.Locks.AzureBlob

open Lib

variable {ι : Type}

inductive Custody (ι : Type)
  | nobody
  | acquiring (i : ι)
  | leaving (i : ι)
  deriving DecidableEq

theorem Custody.acquiring_ne_nobody (i : ι) : Custody.acquiring i ≠ .nobody := by
  intro h
  cases h

theorem Custody.leaving_ne_nobody (i : ι) : Custody.leaving i ≠ .nobody := by
  intro h
  cases h

theorem Custody.acquiring_ne_leaving (i j : ι) : Custody.acquiring i ≠ .leaving j := by
  intro h
  cases h

/-- The lock and its leases, with a record of who answers for what: `sweeper` is who closed the lock
last, and `swept` says that its entries have been taken out. -/
structure Ledger (ι : Type) where
  world : World
  custody : Nat → Custody ι
  sweeper : Option ι
  swept : Bool

namespace Ledger

def give (H : Ledger ι) (lease : Nat) (c : Custody ι) : Ledger ι :=
  { H with custody := Function.update H.custody lease c }

theorem custody_give (H : Ledger ι) (lease : Nat) (c : Custody ι) (n : Nat) :
    (H.give lease c).custody n = if n = lease then c else H.custody n := Function.update_apply ..

end Ledger

def Request.isAcquire : Request → Bool
  | .acquire .. => true
  | _ => false

def Request.isRelease : Request → Bool
  | .release .. => true
  | _ => false

def Allowed (i : ι) (q : Request) (o : Op) (H : Ledger ι) : Prop :=
  match o with
  | .acquireLease _ => q.isAcquire
  | .register _ lease => q.isAcquire ∧ H.custody lease = .acquiring i
  | .pop key token => q = .release key token
  | .releaseLease lease => H.custody lease = .leaving i ∧
    (H.world.lock.health lease).lost = false
  | .setClosed => q = .close
  | .takeAll => q = .close ∧ H.world.lock.closed
  | _ => True

def Tracked (H : Ledger ι) (key : Key) (state : LeaseState) : Prop :=
  H.world.lock.active.get? key = some state

/-- What always holds of the leases. -/
structure Accounted (H : Ledger ι) : Prop where
  tracked : ∀ {key state}, Tracked H key state → H.custody state.lease = .nobody ∧
    state.lease ∉ H.world.service.released ∧ state.lease < H.world.service.granted
  separate : ∀ {key key' state state'}, Tracked H key state → Tracked H key' state' →
    state.lease = state'.lease → key = key'
  held : ∀ {n}, H.custody n ≠ .nobody → n < H.world.service.granted ∧ n ∉ H.world.service.released
  released : ∀ {n}, n ∈ H.world.service.released →
    n < H.world.service.granted ∧ (H.world.lock.health n).lost = false
  fresh : ∀ {n}, H.world.service.granted ≤ n → (H.world.lock.health n).lost = false
  acquiring : ∀ {n i}, H.custody n = .acquiring i → (H.world.lock.health n).lost = false
  settled : ∀ {n}, n < H.world.service.granted → (∃ key state, Tracked H key state ∧
    state.lease = n) ∨ H.custody n ≠ .nobody ∨ n ∈ H.world.service.released ∨
      (H.world.lock.health n).lost
  swept : H.swept → H.world.lock.closed ∧ H.world.lock.active = ∅
  closing : H.world.lock.closed → H.swept ∨ H.sweeper.isSome

structure Spares (i : ι) (H H' : Ledger ι) : Prop where
  acquiring : ∀ n, H'.custody n = .acquiring i ↔ H.custody n = .acquiring i
  leaving : ∀ n, H'.custody n = .leaving i ↔ H.custody n = .leaving i
  health : ∀ n, H.custody n = .leaving i →
    H'.world.lock.health n = H.world.lock.health n
  sweeper : H'.sweeper = some i → H.sweeper = some i
  swept : H.swept → H'.swept
  closed : H.world.lock.closed → H'.world.lock.closed

structure Leaving (i : ι) (ns : List Nat) (H : Ledger ι) : Prop where
  leaving : ∀ n, H.custody n = .leaving i ↔ n ∈ ns
  acquiring : ∀ n, H.custody n ≠ .acquiring i
  sweeper : H.sweeper = some i → H.swept

abbrev Idle (i : ι) (H : Ledger ι) : Prop := Leaving i [] H

structure Busy (i : ι) (q : Request) (H : Ledger ι) : Prop where
  acquiring : ∀ n, H.custody n = .acquiring i → q.isAcquire
  leaving : ∀ n, H.custody n = .leaving i → q.isRelease ∨ q = .close
  sweeper : H.sweeper = some i → H.swept ∨ q = .close

theorem Spares.refl (i : ι) (H : Ledger ι) : Spares i H H :=
  ⟨fun _ => .rfl, fun _ => .rfl, fun _ _ => rfl, id, id, id⟩

theorem Spares.trans (i : ι) {H H' H'' : Ledger ι} (h : Spares i H H') (h' : Spares i H' H'') :
    Spares i H H'' where
  acquiring n := (h'.acquiring n).trans (h.acquiring n)
  leaving n := (h'.leaving n).trans (h.leaving n)
  health n hn := (h'.health n ((h.leaving n).mpr hn)).trans (h.health n hn)
  sweeper := h.sweeper ∘ h'.sweeper
  swept := h'.swept ∘ h.swept
  closed := h'.closed ∘ h.closed

theorem Leaving.spared {i : ι} {ns : List Nat} {H H' : Ledger ι} (h : Leaving i ns H)
    (hR : Spares i H H') : Leaving i ns H' where
  leaving n := (hR.leaving n).trans (h.leaving n)
  acquiring n hn := h.acquiring n ((hR.acquiring n).mp hn)
  sweeper hs := hR.swept (h.sweeper (hR.sweeper hs))

theorem Busy.spared {i : ι} {q : Request} {H H' : Ledger ι} (h : Busy i q H) (hR : Spares i H H') :
    Busy i q H' where
  acquiring n hn := h.acquiring n ((hR.acquiring n).mp hn)
  leaving n hn := h.leaving n ((hR.leaving n).mp hn)
  sweeper hs := (h.sweeper (hR.sweeper hs)).imp_left hR.swept

theorem Idle.busy {i : ι} {H : Ledger ι} (h : Idle i H) (q : Request) : Busy i q H where
  acquiring n hn := absurd hn (h.acquiring n)
  leaving n hn := absurd ((h.leaving n).mp hn) List.not_mem_nil
  sweeper hs := .inl (h.sweeper hs)

variable {i j : ι} {q : Request} {H H' : Ledger ι} {W : World} {key : Key} {state : LeaseState}

theorem Accounted.same (h : Accounted H) (hlock : W.lock = H.world.lock)
    (hgranted : W.service.granted = H.world.service.granted)
    (hreleased : W.service.released = H.world.service.released) :
    Accounted { H with world := W } := by
  obtain ⟨lock, ⟨live, granted, released⟩, tokens⟩ := W
  cases hlock
  cases hgranted
  cases hreleased
  exact ⟨h.tracked, h.separate, h.held, h.released, h.fresh, h.acquiring, h.settled,
    h.swept, h.closing⟩

theorem health_record (L : Lock) (lease : Nat) (f : Health → Health) (n : Nat) :
    (L.record lease f).health n = if n = lease then f (L.health lease) else L.health n :=
  Function.update_apply ..

theorem Accounted.record (h : Accounted H) (htracked : Tracked H key state) {f : Health → Health}
    (hf : ∀ x, x.lost → (f x).lost) : Accounted
      { H with world := { H.world with lock := H.world.lock.record state.lease f } } := by
  obtain ⟨hnobody, hreleased, hgranted⟩ := h.tracked htracked
  have hother : ∀ n, n ≠ state.lease →
      (H.world.lock.record state.lease f).health n = H.world.lock.health n := fun n hn => by
    rw [health_record, if_neg hn]
  refine ⟨h.tracked, h.separate, h.held, ?_, ?_, ?_, ?_, h.swept, h.closing⟩
  · intro n hn
    have hne : n ≠ state.lease := by
      rintro rfl
      exact hreleased hn
    exact (h.released hn).imp_right fun hlost => by rw [hother n hne, hlost]
  · intro n hn
    have hne : n ≠ state.lease := by
      rintro rfl
      exact Nat.not_lt.mpr hn hgranted
    rw [hother n hne]
    exact h.fresh hn
  · intro n j hn
    have hne : n ≠ state.lease := by
      rintro rfl
      exact nomatch hnobody.symm.trans hn
    rw [hother n hne]
    exact h.acquiring hn
  · intro n hn
    refine (h.settled hn).imp id (Or.imp id (Or.imp id fun hlost => ?_))
    rw [health_record]
    split
    · next heq =>
      rw [heq] at hlost
      exact hf _ hlost
    · exact hlost

theorem Accounted.release {n : Nat} (h : Accounted H) (hheld : H.custody n ≠ .nobody)
    (hlost : (H.world.lock.health n).lost = false) (succeeds : Bool) : Accounted
      { H.give n .nobody with
        world := { H.world with service := H.world.service.release n succeeds } } := by
  have hcustody := H.custody_give n .nobody
  have hmem : ∀ m, m ∈ (H.world.service.release n succeeds).released ↔
      m = n ∨ m ∈ H.world.service.released := fun m => List.mem_cons
  refine ⟨?_, h.separate, ?_, ?_, h.fresh, ?_, ?_, h.swept, h.closing⟩
  · intro key state htracked
    obtain ⟨hnobody, hreleased, hgranted⟩ := h.tracked htracked
    refine ⟨?_, ?_, hgranted⟩
    · rw [hcustody]
      split
      · rfl
      · exact hnobody
    · rw [hmem]
      rintro (rfl | hmem)
      · exact hheld hnobody
      · exact hreleased hmem
  · intro m hm
    rw [hcustody] at hm
    split at hm
    · exact absurd rfl hm
    · next hne =>
      refine (h.held hm).imp_right fun hnot hmem' => ?_
      exact ((hmem m).mp hmem').elim hne hnot
  · intro m hm
    cases (hmem m).mp hm with
    | inl heq =>
      subst heq
      exact ⟨(h.held hheld).1, hlost⟩
    | inr hm => exact h.released hm
  · intro m j hm
    rw [hcustody] at hm
    split at hm
    · exact nomatch hm
    · exact h.acquiring hm
  · intro m hm
    rw [hmem, hcustody]
    by_cases heq : m = n
    · exact .inr (.inr (.inl (.inl heq)))
    · rw [if_neg heq]
      exact (h.settled hm).imp id (Or.imp id (Or.imp .inr id))

theorem Accounted.grant (h : Accounted H) (blob : String) (i : ι) : Accounted
    { H.give H.world.service.granted (.acquiring i) with
      world := { H.world with service := H.world.service.grant blob } } := by
  have hcustody := H.custody_give H.world.service.granted (.acquiring i)
  have hlt : ∀ {m}, m < H.world.service.granted → m ≠ H.world.service.granted := Nat.ne_of_lt
  refine ⟨?_, h.separate, ?_, ?_, ?_, ?_, ?_, h.swept, h.closing⟩
  · intro key state htracked
    obtain ⟨hnobody, hreleased, hgranted⟩ := h.tracked htracked
    refine ⟨?_, hreleased, Nat.lt_succ_of_lt hgranted⟩
    rw [hcustody, if_neg (hlt hgranted)]
    exact hnobody
  · intro m hm
    rw [hcustody] at hm
    split at hm
    · next heq =>
      subst heq
      refine ⟨Nat.lt_succ_self _, fun hmem => ?_⟩
      exact Nat.lt_irrefl _ (h.released hmem).1
    · exact (h.held hm).imp_left Nat.lt_succ_of_lt
  · exact fun hm => (h.released hm).imp_left Nat.lt_succ_of_lt
  · exact fun hm => h.fresh (Nat.le_of_succ_le hm)
  · intro m j hm
    rw [hcustody] at hm
    split at hm
    · next heq =>
      subst heq
      exact h.fresh (Nat.le_refl _)
    · exact h.acquiring hm
  · intro m hm
    rw [hcustody]
    split
    · exact .inr (.inl nofun)
    · next hne => exact h.settled (Nat.lt_of_le_of_ne (Nat.le_of_lt_succ hm) hne)

theorem Accounted.register {n : Nat} {token : String} {tokens : List String} (h : Accounted H)
    (hheld : H.custody n = .acquiring i) (hnone : H.world.lock.active.get? key = none)
    (hopen : H.world.lock.closed = false) : Accounted
      { H.give n .nobody with
        world := { H.world with lock := H.world.lock.register key n token, tokens := tokens } } := by
  have hcustody := H.custody_give n .nobody
  have hn : H.custody n ≠ .nobody := fun h => nomatch hheld.symm.trans h
  have hget : ∀ {key' state}, (H.world.lock.register key n token).active.get? key' = some state ↔
      key' = key ∧ state = ⟨n, token⟩ ∨ key' ≠ key ∧ Tracked H key' state := by
    intro key' state
    rw [Lock.register, Dict.get?_set]
    split
    · next heq => simp [heq, eq_comm]
    · next hne => simp [hne, Tracked]
  have hhealth : ∀ m, (H.world.lock.register key n token).health m =
      if m = n then ⟨0, false⟩ else H.world.lock.health m := Function.update_apply _ _ _
  have hlost : ∀ {m}, (H.world.lock.health m).lost = false →
      ((H.world.lock.register key n token).health m).lost = false := by
    intro m hm
    rw [hhealth]
    split
    · rfl
    · exact hm
  refine ⟨?_, ?_, ?_, ?_, fun hm => hlost (h.fresh hm), ?_, ?_, ?_, ?_⟩
  · intro key' state htracked
    rcases hget.mp htracked with ⟨rfl, rfl⟩ | ⟨-, htracked⟩
    · exact ⟨by rw [hcustody, if_pos rfl], (h.held hn).2, (h.held hn).1⟩
    · obtain ⟨hnobody, hrest⟩ := h.tracked htracked
      refine ⟨?_, hrest⟩
      rw [hcustody]
      split
      · rfl
      · exact hnobody
  · intro key₁ key₂ state₁ state₂ h₁ h₂ hlease
    rcases hget.mp h₁ with ⟨rfl, rfl⟩ | ⟨-, htracked₁⟩
    · rcases hget.mp h₂ with ⟨rfl, rfl⟩ | ⟨-, htracked₂⟩
      · rfl
      · exact absurd ((congrArg H.custody hlease).trans (h.tracked htracked₂).1) hn
    · rcases hget.mp h₂ with ⟨rfl, rfl⟩ | ⟨-, htracked₂⟩
      · exact absurd ((congrArg H.custody hlease).symm.trans (h.tracked htracked₁).1) hn
      · exact h.separate htracked₁ htracked₂ hlease
  · intro m hm
    rw [hcustody] at hm
    split at hm
    · exact absurd rfl hm
    · exact h.held hm
  · exact fun hm => (h.released hm).imp_right hlost
  · intro m j hm
    rw [hcustody] at hm
    split at hm
    · cases hm
    · exact hlost (h.acquiring hm)
  · intro m hm
    by_cases heq : m = n
    · exact .inl ⟨key, ⟨n, token⟩, hget.mpr (.inl ⟨rfl, rfl⟩), heq.symm⟩
    · rw [hcustody, if_neg heq, hhealth, if_neg heq]
      refine (h.settled hm).imp ?_ id
      rintro ⟨key', state, htracked, rfl⟩
      refine ⟨key', state, hget.mpr (.inr ⟨?_, htracked⟩), rfl⟩
      rintro rfl
      cases hnone.symm.trans htracked
  · intro hswept
    cases hopen.symm.trans (h.swept hswept).1
  · intro hclosed
    cases hopen.symm.trans hclosed

theorem Accounted.take (h : Accounted H) (i : ι) (ns : List Nat)
    (hservice : H'.world.service = H.world.service)
    (hhealth : H'.world.lock.health = H.world.lock.health)
    (hclosed : H'.world.lock.closed = H.world.lock.closed)
    (hsweeper : H'.sweeper = H.sweeper)
    (hactive : ∀ {key state}, Tracked H' key state ↔ Tracked H key state ∧ state.lease ∉ ns)
    (hns : ∀ n ∈ ns, ∃ key state, Tracked H key state ∧ state.lease = n)
    (hcustody : ∀ n, H'.custody n = if n ∈ ns then .leaving i else H.custody n)
    (hswept : H'.swept → H'.world.lock.closed ∧ H'.world.lock.active = ∅)
    (hkept : H.swept → H'.swept) : Accounted H' := by
  refine ⟨?_, ?_, ?_, ?_, ?_, ?_, ?_, hswept, ?_⟩
  · intro key state htracked
    obtain ⟨htracked, hnot⟩ := hactive.mp htracked
    rw [hcustody, if_neg hnot, hservice]
    exact h.tracked htracked
  · exact fun h₁ h₂ => h.separate (hactive.mp h₁).1 (hactive.mp h₂).1
  · intro n hn
    rw [hcustody] at hn
    rw [hservice]
    split at hn
    · next hmem =>
      obtain ⟨key, state, htracked, rfl⟩ := hns n hmem
      obtain ⟨-, hreleased, hgranted⟩ := h.tracked htracked
      exact ⟨hgranted, hreleased⟩
    · exact h.held hn
  · intro n hn
    rw [hservice] at hn ⊢
    rw [hhealth]
    exact h.released hn
  · intro n hn
    rw [hservice] at hn
    rw [hhealth]
    exact h.fresh hn
  · intro n j hn
    rw [hcustody] at hn
    split at hn
    · exact nomatch hn
    · rw [hhealth, h.acquiring hn]
  · intro n hn
    rw [hservice] at hn ⊢
    by_cases hmem : n ∈ ns
    · refine .inr (.inl ?_)
      rw [hcustody, if_pos hmem]
      exact nofun
    · rw [hcustody, if_neg hmem, hhealth]
      refine (h.settled hn).imp ?_ id
      rintro ⟨key, state, htracked, rfl⟩
      exact ⟨key, state, hactive.mpr ⟨htracked, hmem⟩, rfl⟩
  · intro hc
    rw [hclosed] at hc
    rw [hsweeper]
    exact (h.closing hc).imp_left hkept

theorem Accounted.forget {n : Nat} (h : Accounted H) (hlost : (H.world.lock.health n).lost) :
    Accounted (H.give n .nobody) := by
  have hcustody := H.custody_give n .nobody
  refine ⟨?_, h.separate, ?_, h.released, h.fresh, ?_, ?_, h.swept, h.closing⟩
  · intro key state htracked
    refine (h.tracked htracked).imp_left fun hnobody => ?_
    rw [hcustody]
    split
    · rfl
    · exact hnobody
  · intro m hm
    rw [hcustody] at hm
    split at hm
    · exact absurd rfl hm
    · exact h.held hm
  · intro m j hm
    rw [hcustody] at hm
    split at hm
    · exact nomatch hm
    · exact h.acquiring hm
  · intro m hm
    rw [hcustody]
    split
    · next heq => exact .inr (.inr (.inr (heq ▸ hlost)))
    · exact h.settled hm

def Foreign (i : ι) (c : Custody ι) : Prop := c ≠ .acquiring i ∧ c ≠ .leaving i

theorem foreign_nobody (i : ι) : Foreign i .nobody := ⟨nofun, nofun⟩

theorem foreign_acquiring (hij : i ≠ j) : Foreign i (.acquiring j) :=
  ⟨fun h => hij (Custody.acquiring.inj h).symm, nofun⟩

theorem foreign_leaving (hij : i ≠ j) : Foreign i (.leaving j) :=
  ⟨nofun, fun h => hij (Custody.leaving.inj h).symm⟩

theorem Spares.of_custody
    (hcustody : ∀ n, H'.custody n = H.custody n ∨
      Foreign i (H.custody n) ∧ Foreign i (H'.custody n))
    (hhealth : ∀ n, H.custody n = .leaving i → H'.world.lock.health n = H.world.lock.health n)
    (hsweeper : H'.sweeper = some i → H.sweeper = some i) (hswept : H.swept → H'.swept)
    (hclosed : H.world.lock.closed → H'.world.lock.closed) : Spares i H H' := by
  refine ⟨fun n => ?_, fun n => ?_, hhealth, hsweeper, hswept, hclosed⟩
  · rcases hcustody n with h | ⟨h, h'⟩
    · rw [h]
    · exact iff_of_false h'.1 h.1
  · rcases hcustody n with h | ⟨h, h'⟩
    · rw [h]
    · exact iff_of_false h'.2 h.2

theorem Spares.of_give {n : Nat} {c : Custody ι}
    (hbefore : Foreign i (H.custody n)) (hafter : Foreign i c)
    (hhealth : ∀ m, H.custody m = .leaving i → W.lock.health m = H.world.lock.health m)
    (hclosed : H.world.lock.closed → W.lock.closed) :
    Spares i H { H.give n c with world := W } := by
  refine .of_custody (fun m => ?_) hhealth id id hclosed
  change (H.give n c).custody m = _ ∨ _ ∧ Foreign i ((H.give n c).custody m)
  rw [H.custody_give]
  split
  · next heq => exact .inr ⟨heq ▸ hbefore, hafter⟩
  · exact .inl rfl

theorem Spares.of_world (hhealth : ∀ m, H.custody m = .leaving i →
      W.lock.health m = H.world.lock.health m)
    (hclosed : H.world.lock.closed → W.lock.closed) : Spares i H { H with world := W } :=
  .of_custody (fun _ => .inl rfl) hhealth id id hclosed

theorem Accounted.ne_of_leaving (h : Accounted H) (htracked : Tracked H key state) {n : Nat}
    (hn : H.custody n = .leaving i) : n ≠ state.lease := by
  rintro rfl
  exact nomatch hn.symm.trans (h.tracked htracked).1

theorem Leaving.world (h : Leaving i ns H) (W : World) : Leaving i ns { H with world := W } :=
  ⟨h.leaving, h.acquiring, h.sweeper⟩

theorem Leaving.give {n : Nat} (h : Leaving i (n :: ns) H) (hn : n ∉ ns) :
    Leaving i ns { H.give n .nobody with world := W } := by
  refine ⟨fun m => ?_, fun m => ?_, h.sweeper⟩
  · change (H.give n .nobody).custody m = _ ↔ _
    rw [H.custody_give]
    split
    · next heq => exact iff_of_false nofun (heq ▸ hn)
    · next hne => rw [h.leaving, List.mem_cons, or_iff_right hne]
  · change (H.give n .nobody).custody m ≠ _
    rw [H.custody_give]
    split
    · exact nofun
    · exact h.acquiring m

theorem Accounted.nodup (h : Accounted H) :
    (H.world.lock.active.items.map (·.2.lease)).Nodup := by
  have hkeys := H.world.lock.active.nodup
  refine List.Nodup.map_on ?_ (List.Nodup.of_map _ hkeys)
  rintro ⟨key, state⟩ hx ⟨key', state'⟩ hy hlease
  have htracked : Tracked H key state := Dict.get?_eq_some_iff.mpr hx
  have htracked' : Tracked H key' state' := Dict.get?_eq_some_iff.mpr hy
  cases h.separate htracked htracked' hlease
  cases htracked.symm.trans htracked'
  rfl

section

variable [DecidableEq ι]

namespace Ledger

def note (H : Ledger ι) (i : ι) : (o : Op) → o.Ans → Ledger ι
  | .acquireLease _, .ok lease => H.give lease (.acquiring i)
  | .register _ lease, _ => H.give lease .nobody
  | .pop _ _, some state => H.give state.lease (.leaving i)
  | .lost lease, true => if H.custody lease = .leaving i then H.give lease .nobody else H
  | .releaseLease lease, _ => H.give lease .nobody
  | .setClosed, _ => { H with sweeper := some i }
  | .takeAll, entries =>
    { H with
      custody := fun n => if n ∈ entries.map (·.2.lease) then .leaving i else H.custody n
      swept := true }
  | _, _ => H

def next (H : Ledger ι) (i : ι) (o : Op) (a : o.Ans) (W : World) : Ledger ι :=
  { H.note i o a with world := W }

end Ledger

def ledgerService (i : ι) : Prog.Service interface (Ledger ι) where
  step o H a H' := step o H.world a H'.world ∧ H' = H.next i o a H'.world

theorem Accounted.pop {token : String} (h : Accounted H) : Accounted
    (H.next i (.pop key token) (H.world.lock.pop key token).1
      { H.world with lock := (H.world.lock.pop key token).2 }) := by
  rw [Lock.pop]
  split
  · exact h
  · next state hstate =>
    split
    · exact h
    · refine h.take i [state.lease] rfl rfl rfl rfl ?_ ?_ ?_ ?_ id
      · intro key' state'
        change (H.world.lock.active.erase key).get? key' = some state' ↔ _
        rw [Dict.get?_erase, List.mem_singleton]
        split
        · next heq =>
          subst heq
          refine iff_of_false (Option.some_ne_none state').symm fun h => h.2 ?_
          rw [Option.some.inj (hstate.symm.trans h.1)]
        · next hne =>
          refine ⟨fun htracked => ⟨htracked, fun hlease => hne ?_⟩, And.left⟩
          exact h.separate htracked hstate hlease
      · intro n hn
        exact ⟨key, state, hstate, (List.mem_singleton.mp hn).symm⟩
      · intro n
        refine (H.custody_give state.lease (.leaving i) n).trans ?_
        simp only [List.mem_singleton]
      · intro hswept
        obtain ⟨hclosed, hempty⟩ := h.swept hswept
        cases (hempty ▸ hstate : (∅ : Dict Key LeaseState).get? key = some state)

theorem Accounted.lost {n : Nat} (h : Accounted H) : Accounted
    (H.next i (.lost n) (H.world.lock.health n).lost H.world) := by
  cases hlost : (H.world.lock.health n).lost with
  | false => exact h
  | true =>
    change Accounted { (if H.custody n = .leaving i then H.give n .nobody else H) with world := H.world }
    split
    · exact h.forget hlost
    · exact h

theorem Accounted.renewed (h : Accounted H) : Accounted
    (H.next i (.recordRenewSuccess key state) ()
      { H.world with lock := H.world.lock.recordRenewSuccess key state }) := by
  rw [Lock.recordRenewSuccess]
  split
  · next htracked => exact h.record htracked fun _ hx => hx
  · exact h

theorem Accounted.failed {exc : Exn} (h : Accounted H) : Accounted
    (H.next i (.handleRenewFailure key state exc) ()
      { H.world with lock := H.world.lock.handleRenewFailure key state exc }) := by
  rw [Lock.handleRenewFailure]
  split
  · next htracked =>
    refine h.record htracked fun x hx => ?_
    split
    · rfl
    · change (x.lost || _) = true
      rw [hx, Bool.true_or]
  · exact h

theorem Accounted.close (h : Accounted H) : Accounted
    (H.next i .setClosed () { H.world with lock := { H.world.lock with closed := true } }) := by
  exact ⟨h.tracked, h.separate, h.held, h.released, h.fresh, h.acquiring, h.settled,
    fun hswept => ⟨rfl, (h.swept hswept).2⟩, fun _ => .inr rfl⟩

theorem Accounted.takeAll (h : Accounted H) (hclosed : H.world.lock.closed) : Accounted
    (H.next i .takeAll H.world.lock.active.items
      { H.world with lock := { H.world.lock with active := ∅ } }) := by
  have hitems : ∀ n, n ∈ H.world.lock.active.items.map (·.2.lease) ↔
      ∃ key state, Tracked H key state ∧ state.lease = n := by
    intro n
    simp [Tracked, Dict.get?_eq_some_iff]
  refine h.take i (H.world.lock.active.items.map (·.2.lease)) rfl rfl rfl rfl ?_ ?_ ?_ ?_ ?_
  · intro key state
    refine iff_of_false (Option.some_ne_none state).symm fun h => h.2 ?_
    exact (hitems _).mpr ⟨key, state, h.1, rfl⟩
  · exact fun n hn => (hitems n).mp hn
  · exact fun n => rfl
  · exact fun _ => ⟨hclosed, rfl⟩
  · exact fun _ => rfl

theorem Accounted.step {o : Op} {a : o.Ans} (h : Accounted H)
    (hs : (ledgerService i).step o H a H') (hallowed : Allowed i q o H) : Accounted H' := by
  obtain ⟨hs, hnext⟩ := hs
  generalize H'.world = W at hs hnext
  subst hnext
  cases o with
  | enter key =>
    obtain ⟨rfl, -⟩ := hs
    exact h
  | uploadMarker blob =>
    cases hs
    exact h
  | monotonic =>
    cases hs
    exact h
  | pollClosed =>
    obtain ⟨rfl, -⟩ := hs
    exact h
  | acquireLease blob =>
    cases a with
    | ok lease =>
      obtain ⟨-, rfl, rfl⟩ := hs
      exact h.grant blob i
    | error e =>
      cases hs
      exact h
  | sleep seconds =>
    cases hs
    exact h
  | register key lease =>
    have hheld : H.custody lease = .acquiring i := hallowed.2
    have hreleased := h.release (fun hn => Custody.acquiring_ne_nobody i (hheld.symm.trans hn)) (h.acquiring hheld)
    change registerStep key lease H.world a W at hs
    rw [registerStep] at hs
    split at hs
    · obtain ⟨rfl, succeeds, rfl⟩ := hs
      exact hreleased succeeds
    · next hnone =>
      split at hs
      · obtain ⟨rfl, succeeds, rfl⟩ := hs
        exact hreleased succeeds
      · next hopen =>
        obtain ⟨token, rfl, -, rfl⟩ := hs
        exact h.register hheld (Option.not_isSome_iff_eq_none.mp hnone) (Bool.eq_false_iff.mpr hopen)
  | pop key token =>
    obtain ⟨rfl, rfl⟩ := hs
    exact h.pop
  | lost lease =>
    obtain ⟨rfl, rfl⟩ := hs
    exact h.lost
  | releaseLease lease =>
    obtain ⟨hheld, hlost⟩ := hallowed
    have hreleased := h.release (fun hn => Custody.leaving_ne_nobody i (hheld.symm.trans hn)) hlost
    cases a with
    | ok _ =>
      cases hs
      exact hreleased true
    | error e =>
      obtain ⟨succeeds, rfl⟩ := hs
      exact hreleased succeeds
  | snapshot =>
    obtain ⟨rfl, -⟩ := hs
    exact h
  | renew lease =>
    cases hs
    exact h
  | waitRenewals snapshot =>
    obtain ⟨rfl, -⟩ := hs
    exact h
  | recordRenewSuccess key state =>
    cases hs
    exact h.renewed
  | handleRenewFailure key state exc =>
    cases hs
    exact h.failed
  | closed =>
    obtain ⟨rfl, -⟩ := hs
    exact h
  | setClosed =>
    cases hs
    exact h.close
  | takeAll =>
    obtain ⟨rfl, rfl⟩ := hs
    exact h.takeAll hallowed.2
  | entry key =>
    obtain ⟨rfl, -⟩ := hs
    exact h
  | guardToken token =>
    cases hs
    exact h.same rfl rfl rfl
  | lapse blob =>
    cases hs
    exact h.same rfl rfl rfl
  | seize blob =>
    obtain ⟨-, rfl⟩ := hs
    exact h.same rfl rfl rfl
  | stuck => exact a.elim

theorem Accounted.spares {o : Op} {a : o.Ans} (h : Accounted H) (hij : i ≠ j)
    (hs : (ledgerService j).step o H a H') (hallowed : Allowed j q o H) : Spares i H H' := by
  obtain ⟨hs, hnext⟩ := hs
  generalize H'.world = W at hs hnext
  subst hnext
  have hsame : Spares i H { H with world := H.world } := .refl i H
  cases o with
  | enter key =>
    obtain ⟨rfl, -⟩ := hs
    exact hsame
  | uploadMarker blob =>
    cases hs
    exact hsame
  | monotonic =>
    cases hs
    exact hsame
  | pollClosed =>
    obtain ⟨rfl, -⟩ := hs
    exact hsame
  | acquireLease blob =>
    cases a with
    | ok lease =>
      obtain ⟨-, rfl, rfl⟩ := hs
      have hnobody : H.custody H.world.service.granted = .nobody := by
        by_contra hne
        exact Nat.lt_irrefl _ (h.held hne).1
      exact .of_give (hnobody ▸ foreign_nobody i) (foreign_acquiring hij) (fun _ _ => rfl) id
    | error e =>
      cases hs
      exact hsame
  | sleep seconds =>
    cases hs
    exact hsame
  | register key lease =>
    have hheld : H.custody lease = .acquiring j := hallowed.2
    have hforeign : Foreign i (H.custody lease) := hheld ▸ foreign_acquiring hij
    change registerStep key lease H.world a W at hs
    rw [registerStep] at hs
    split at hs
    · obtain ⟨rfl, succeeds, rfl⟩ := hs
      exact .of_give hforeign (foreign_nobody i) (fun _ _ => rfl) id
    · split at hs
      · obtain ⟨rfl, succeeds, rfl⟩ := hs
        exact .of_give hforeign (foreign_nobody i) (fun _ _ => rfl) id
      · obtain ⟨token, rfl, -, rfl⟩ := hs
        refine .of_give hforeign (foreign_nobody i) (fun m hm => ?_) id
        refine Function.update_of_ne ?_ _ _
        rintro rfl
        cases hm.symm.trans hheld
  | pop key token =>
    obtain ⟨rfl, rfl⟩ := hs
    rw [Lock.pop]
    split
    · exact hsame
    · next state hstate =>
      split
      · exact hsame
      · exact .of_give ((h.tracked hstate).1 ▸ foreign_nobody i) (foreign_leaving hij)
          (fun _ _ => rfl) id
  | lost lease =>
    obtain ⟨rfl, rfl⟩ := hs
    cases hlost : (H.world.lock.health lease).lost with
    | false => exact hsame
    | true =>
      change Spares i H
        { (if H.custody lease = .leaving j then H.give lease .nobody else H) with world := H.world }
      split
      · next hheld =>
        exact .of_give (hheld ▸ foreign_leaving hij) (foreign_nobody i) (fun _ _ => rfl) id
      · exact hsame
  | releaseLease lease =>
    have hforeign : Foreign i (H.custody lease) := hallowed.1 ▸ foreign_leaving hij
    cases a with
    | ok _ =>
      cases hs
      exact .of_give hforeign (foreign_nobody i) (fun _ _ => rfl) id
    | error e =>
      obtain ⟨succeeds, rfl⟩ := hs
      exact .of_give hforeign (foreign_nobody i) (fun _ _ => rfl) id
  | snapshot =>
    obtain ⟨rfl, -⟩ := hs
    exact hsame
  | renew lease =>
    cases hs
    exact hsame
  | waitRenewals snapshot =>
    obtain ⟨rfl, -⟩ := hs
    exact hsame
  | recordRenewSuccess key state =>
    cases hs
    rw [Lock.recordRenewSuccess]
    split
    · next htracked =>
      refine .of_world (fun m hm => ?_) id
      exact Function.update_of_ne (h.ne_of_leaving htracked hm) _ _
    · exact hsame
  | handleRenewFailure key state exc =>
    cases hs
    rw [Lock.handleRenewFailure]
    split
    · next htracked =>
      refine .of_world (fun m hm => ?_) id
      exact Function.update_of_ne (h.ne_of_leaving htracked hm) _ _
    · exact hsame
  | closed =>
    obtain ⟨rfl, -⟩ := hs
    exact hsame
  | setClosed =>
    cases hs
    refine .of_custody (fun _ => .inl rfl) (fun _ _ => rfl) (fun hj => ?_) id (fun _ => rfl)
    exact absurd (Option.some.inj hj).symm hij
  | takeAll =>
    obtain ⟨rfl, rfl⟩ := hs
    refine .of_custody (fun n => ?_) (fun _ _ => rfl) id (fun _ => rfl) id
    change (if n ∈ H.world.lock.active.items.map (·.2.lease) then Custody.leaving j else H.custody n) =
      _ ∨ _ ∧ Foreign i (if n ∈ H.world.lock.active.items.map (·.2.lease) then .leaving j
        else H.custody n)
    split
    · next hmem =>
      obtain ⟨⟨key, state⟩, hitem, rfl⟩ := List.mem_map.mp hmem
      have htracked : Tracked H key state := Dict.get?_eq_some_iff.mpr hitem
      exact .inr ⟨(h.tracked htracked).1 ▸ foreign_nobody i, foreign_leaving hij⟩
    · exact .inl rfl
  | entry key =>
    obtain ⟨rfl, -⟩ := hs
    exact hsame
  | guardToken token =>
    cases hs
    exact .of_world (fun _ _ => rfl) id
  | lapse blob =>
    cases hs
    exact .of_world (fun _ _ => rfl) id
  | seize blob =>
    obtain ⟨-, rfl⟩ := hs
    exact .of_world (fun _ _ => rfl) id
  | stuck => exact a.elim

end

end LangGraphFunctions.Locks.AzureBlob
