import LangGraphFunctions.Stores.Exclusion
import LangGraphFunctions.Stores.Replays

/-! One client on either of the thread stores. -/

namespace LangGraphFunctions.Stores.AzureTable

open Lib EtagTable Platform

/-- The service answers, and each row that is about to be written is within its limits. -/
structure Served (entry : Entry) : Prop where
  answered : ∀ o a message, Prog.Recorded entry.answers o a →
    o.failure a ≠ some (.other message)
  fits : ∀ entity exc, Prepares entry.answers entry.call entity →
    validateEntity entity ≠ .error exc

/-- A renewal is of a thread that is there, and an identifier that is drawn is that of no thread. -/
structure Regular (T : Table) (entry : Entry) : Prop where
  present : ∀ threadId ownerToken, entry.call = .renewRunLock threadId ownerToken →
    T.row? threadId ≠ none
  fresh : ∀ metadata uuid, entry.call = .create metadata →
    Prog.Recorded entry.answers .uuid uuid → T.row? uuid = none

/-- The in-memory store returns the same to every call, given the same times and identifiers. -/
inductive Same (eq : Json.Value → Json.Value → Bool) : Threads → List Entry → Threads → Prop
  | nil {threads : Threads} : Same eq threads [] threads
  | cons {threads threads' threads'' : Threads} {call : StoreCall} {r r' : Except Exn call.Result}
      {w : Answers} {log : List Entry} (now : Int) (uuid : String) : Drawn now uuid w →
      call.serve eq now uuid threads = (r', threads') → Matches call r' r →
      Same eq threads' log threads'' → Same eq threads (⟨call, r, w⟩ :: log) threads''

variable {eq : Json.Value → Json.Value → Bool} {threads : Threads} {T T' : Table} {me : Nat}

theorem Regular.not_excused {call : StoreCall} {r : Except Exn call.Result} {w : Answers}
    {exc : Exn} (h : Mirrors threads T) (hserved : Served ⟨call, r, w⟩)
    (hregular : Regular T ⟨call, r, w⟩) : ¬ Excuse threads w call exc := by
  rintro (⟨hprepares, hvalid⟩ | ⟨hrecorded, hfault⟩ | ⟨hdrawn, hthere⟩ | hmissing)
  · exact hserved.fits _ _ hprepares hvalid
  · exact hserved.answered _ _ _ hrecorded hfault
  · rw [h.absent (hregular.fresh _ _ rfl hdrawn)] at hthere
    cases hthere
  · obtain ⟨row, hrow⟩ := Option.ne_none_iff_exists'.mp (hregular.present _ _ rfl)
    obtain ⟨thread, hthread, -⟩ := h.present hrow
    rw [hmissing] at hthread
    cases hthread

/-- Whatever one client calls: while the service answers and no limit is exceeded, both stores
return the same to each call, or raise the same, if no thread that is gone is renewed and no
identifier is drawn twice. -/
theorem stores_agree {log : List Entry} (h : Mirrors threads T)
    (hcalls : CallsWhere eq me (fun T entry => Served entry ∧ Regular T entry) T log T')
    (hjson : ∀ entry ∈ log, entry.call.IsJson) :
    ∃ threads', Same eq threads log threads' ∧ Mirrors threads' T' := by
  induction hcalls generalizing threads with
  | nil => exact ⟨threads, .nil, h⟩
  | @cons T T₁ T₂ call r log t hx hmeets hcalls ih =>
    obtain ⟨hcall, hjson⟩ := List.forall_mem_cons.mp hjson
    cases agrees_exec h hcall hx with
    | does now uuid threads₁ r' hdrawn hserve hmatches h₁ =>
      obtain ⟨threads', hsame, h'⟩ := ih h₁ hjson
      exact ⟨threads', .cons now uuid hdrawn hserve hmatches hsame, h'⟩
    | fails exc hr hexcuse h₁ => exact absurd hexcuse (hmeets.2.not_excused h hmeets.1)

def firstEntity : Entity := ((threadToEntity "u" 1 1 none .idle none none ∅).toOption).getD ∅

def firstAnswers : Answers := [⟨.uuid, "u"⟩, ⟨.now, 1⟩, ⟨.create "u" firstEntity, .ok ()⟩]

theorem drawn_firstAnswers : Drawn 1 "u" firstAnswers := by simp [Drawn, Gives, firstAnswers]

theorem served_create {r : Except Exn Thread} : Served ⟨.create none, r, firstAnswers⟩ where
  answered o a message hrecorded := by
    simp only [Prog.Recorded, firstAnswers, List.mem_cons, List.not_mem_nil, or_false] at hrecorded
    rcases hrecorded with h | h | h <;> cases h <;> simp [Op.failure]
  fits entity exc hprepares := by
    cases hprepares with
    | @create uuid now _ _ huuid hnow hentity =>
      obtain rfl : uuid = "u" := drawn_firstAnswers _ huuid
      obtain rfl : now = 1 := drawn_firstAnswers _ hnow
      have hvalid :
          (threadToEntity "u" 1 1 none .idle none none ∅).bind validateEntity = .ok () := by rfl
      intro hexc
      rw [hentity] at hvalid
      rw [show validateEntity entity = .ok () from hvalid] at hexc
      cases hexc

theorem served_read {call : StoreCall} {r : Except Exn call.Result} {key : String} {row : Row}
    (h : ∀ entity, ¬ Prepares [⟨.get key, .ok row⟩] call entity) :
    Served ⟨call, r, [⟨.get key, .ok row⟩]⟩ where
  answered o a message hrecorded := by
    cases List.mem_singleton.mp hrecorded
    simp [Op.failure]
  fits entity exc hprepares := absurd hprepares (h entity)

theorem stores_agree_created : ∃ log T' threads',
    CallsWhere (fun _ _ => true) 0 (fun T entry => Served entry ∧ Regular T entry) (emptyTable 0)
      log T' ∧
    log.map (·.call) = [.create none, .renewRunLock "u" "x", .get "u"] ∧
    Same (fun _ _ => true) ∅ log threads' ∧ Mirrors threads' T' := by
  obtain ⟨log, T', hcalls, hlog⟩ : ∃ log T', CallsWhere (fun _ _ => true) 0
      (fun T entry => Served entry ∧ Regular T entry) (emptyTable 0) log T' ∧
      log.map (·.call) = [.create none, .renewRunLock "u" "x", .get "u"] := by
    refine ⟨_, _, callsWhere_cons (.create none) ⟨served_create, ?_, ?_⟩ <|
      callsWhere_cons (.renewRunLock "u" "x") ⟨served_read fun entity h => ?_, ?_, ?_⟩ <|
      callsWhere_cons (.get "u") ⟨served_read fun entity h => ?_, ?_, ?_⟩ .nil, rfl⟩
    · rintro _ _ ⟨⟩
    · exact fun _ _ _ _ => rfl
    · cases h
    · rintro _ _ ⟨⟩ ⟨⟩
    · rintro _ _ ⟨⟩
    · cases h
    · rintro _ _ ⟨⟩
    · rintro _ _ ⟨⟩
  have hjson : ∀ entry ∈ log, entry.call.IsJson := by
    intro entry hentry
    have hcall := List.mem_map_of_mem (f := (·.call)) hentry
    simp only [hlog, List.mem_cons, List.not_mem_nil, or_false] at hcall
    rcases hcall with h | h | h <;> rw [h]
    · exact fun _ h => (by cases h)
    · trivial
    · trivial
  obtain ⟨threads', hsame, h'⟩ := stores_agree (mirrors_empty 0) hcalls hjson
  exact ⟨log, T', threads', hcalls, hlog, hsame, h'⟩

def missingRenewal : Entry :=
  ⟨.renewRunLock "v" "uu", .error .notFoundError, [⟨.get "v", .error .notFound⟩]⟩

theorem served_missingRenewal : Served missingRenewal where
  answered o a message hrecorded := by
    cases List.mem_singleton.mp hrecorded
    simp [Op.failure]
  fits entity exc hprepares := by cases hprepares

/-- The table store raises where the in-memory store finds nothing to renew. -/
theorem stores_differ : CallsWhere (fun _ _ => true) 0 (fun _ entry => Served entry) (emptyTable 0)
      [missingRenewal] (emptyTable 0) ∧
    (∀ entry ∈ [missingRenewal], entry.call.IsJson) ∧ Mirrors ∅ (emptyTable 0) ∧
    ¬ ∃ threads', Same (fun _ _ => true) ∅ [missingRenewal] threads' := by
  refine ⟨?_, ?_, mirrors_empty 0, ?_⟩
  · exact callsWhere_cons (.renewRunLock "v" "uu") served_missingRenewal .nil
  · exact List.forall_mem_singleton.mpr trivial
  · rintro ⟨threads', hsame⟩
    cases hsame with
    | cons now uuid hdrawn hserve hmatches hrest =>
      cases hserve
      cases hmatches

end LangGraphFunctions.Stores.AzureTable
