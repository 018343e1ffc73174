import LangGraphFunctions.Lib.Decimal
import LangGraphFunctions.Lib.Names
import LangGraphFunctions.Lib.Percent

/-! The blob paths of the saver, and what their names say. -/

namespace LangGraphFunctions.Checkpointers

open Lib

def escape (segment : String) : String := Percent.quote segment

def threadPrefix (threadId : String) : String := "threads/" ++ escape threadId ++ "/"

def namespacePrefix (threadId ns : String) : String := threadPrefix threadId ++ "ns/" ++ escape ns ++ "/"

def checkpointsPrefix (threadId ns : String) : String := namespacePrefix threadId ns ++ "checkpoints/"

def checkpointBasePrefix (threadId ns checkpointId : String) : String :=
  checkpointsPrefix threadId ns ++ escape checkpointId ++ "/"

def checkpointBlobPath (threadId ns checkpointId : String) : String :=
  checkpointBasePrefix threadId ns checkpointId ++ "checkpoint.bin"

def metadataBlobPath (threadId ns checkpointId : String) : String :=
  checkpointBasePrefix threadId ns checkpointId ++ "metadata.bin"

def writesPrefix (threadId ns checkpointId : String) : String :=
  checkpointBasePrefix threadId ns checkpointId ++ "writes/"

def writeBlobPath (threadId ns checkpointId taskId : String) (writeIndex : Int) : String :=
  writesPrefix threadId ns checkpointId ++ escape taskId ++ "/" ++ escape (toString writeIndex) ++ ".bin"

def valuesPrefix (threadId ns : String) : String := namespacePrefix threadId ns ++ "values/"

def valueBlobPath (threadId ns channel version : String) : String :=
  valuesPrefix threadId ns ++ escape channel ++ "/" ++ escape version ++ ".bin"

def latestBlobPath (threadId ns : String) : String := namespacePrefix threadId ns ++ "latest.json"

variable {t t' ns ns' name : String}

theorem plain_escape (s : String) : '/' ∉ (escape s).toList :=
  Percent.not_mem_quote (by decide) (by decide)

theorem escape_injective : Function.Injective escape := fun _ _ h => Percent.quote_injective h

theorem unquote_escape (s : String) : Percent.unquote (escape s) = s := Percent.unquote_quote s

attribute [irreducible] escape

def threadSegments (threadId : String) : List String := ["threads", escape threadId]

def namespaceSegments (threadId ns : String) : List String :=
  ["threads", escape threadId, "ns", escape ns]

theorem plain_threadSegments (t : String) : Names.Plain '/' (threadSegments t) := by
  simp [threadSegments, Names.Plain, plain_escape]

theorem plain_namespaceSegments (t ns : String) : Names.Plain '/' (namespaceSegments t ns) := by
  simp [namespaceSegments, Names.Plain, plain_escape]

theorem slash_eq_singleton : ("/" : String) = String.singleton '/' := rfl

theorem eq_append_slash {s t : String} (h : s = t ++ "/") : s = t ++ String.singleton '/' := h

theorem threadPrefix_eq (t : String) : threadPrefix t = Names.directory '/' (threadSegments t) := by
  simp only [threadPrefix, threadSegments, Names.directory, String.append_empty,
    slash_eq_singleton, eq_append_slash (s := "threads/") (t := "threads") rfl, String.append_assoc]

theorem namespacePrefix_eq (t ns : String) :
    namespacePrefix t ns = Names.directory '/' (namespaceSegments t ns) := by
  rw [namespacePrefix, threadPrefix_eq,
    show namespaceSegments t ns = threadSegments t ++ ["ns", escape ns] from rfl,
    Names.directory_append]
  simp only [Names.directory, String.append_empty, slash_eq_singleton,
    eq_append_slash (s := "ns/") (t := "ns") rfl, String.append_assoc]

theorem threadPrefix_unique (h : Names.startswith name (threadPrefix t))
    (h' : Names.startswith name (threadPrefix t')) : t = t' := by
  rw [threadPrefix_eq] at h h'
  have heq := Names.directory_unique (plain_threadSegments t) (plain_threadSegments t') rfl h h'
  simp only [threadSegments, List.cons.injEq, and_true, true_and] at heq
  exact escape_injective heq

theorem namespacePrefix_unique (h : Names.startswith name (namespacePrefix t ns))
    (h' : Names.startswith name (namespacePrefix t' ns')) : t = t' ∧ ns = ns' := by
  rw [namespacePrefix_eq] at h h'
  have heq := Names.directory_unique (plain_namespaceSegments t ns) (plain_namespaceSegments t' ns')
    rfl h h'
  simp only [namespaceSegments, List.cons.injEq, and_true, true_and] at heq
  obtain ⟨ht, hns⟩ := heq
  exact ⟨escape_injective ht, escape_injective hns⟩

theorem startswith_threadPrefix (h : Names.startswith name (namespacePrefix t ns)) :
    Names.startswith name (threadPrefix t) := by
  have hbelow : namespacePrefix t ns = threadPrefix t ++ ("ns/" ++ escape ns ++ "/") := by
    simp only [namespacePrefix, String.append_assoc]
  rw [hbelow] at h
  exact Names.startswith_append (threadPrefix t) h

/-- The blobs that the saver writes; a version is given by its text. -/
inductive Key
  | latest (threadId ns : String)
  | value (threadId ns channel version : String)
  | checkpoint (threadId ns checkpointId : String)
  | metadata (threadId ns checkpointId : String)
  | write (threadId ns checkpointId taskId : String) (writeIndex : Int)
  deriving DecidableEq

namespace Key

def path : Key → String
  | latest t ns => latestBlobPath t ns
  | value t ns channel version => valueBlobPath t ns channel version
  | checkpoint t ns id => checkpointBlobPath t ns id
  | metadata t ns id => metadataBlobPath t ns id
  | write t ns id taskId writeIndex => writeBlobPath t ns id taskId writeIndex

def threadId : Key → String
  | latest t _ => t
  | value t _ _ _ => t
  | checkpoint t _ _ => t
  | metadata t _ _ => t
  | write t _ _ _ _ => t

def checkpointNs : Key → String
  | latest _ ns => ns
  | value _ ns _ _ => ns
  | checkpoint _ ns _ => ns
  | metadata _ ns _ => ns
  | write _ ns _ _ _ => ns

def dirs : Key → List String
  | latest _ _ => []
  | value _ _ channel _ => ["values", escape channel]
  | checkpoint _ _ id => ["checkpoints", escape id]
  | metadata _ _ id => ["checkpoints", escape id]
  | write _ _ id taskId _ => ["checkpoints", escape id, "writes", escape taskId]

def fileName : Key → String
  | latest _ _ => "latest.json"
  | value _ _ _ version => escape version ++ ".bin"
  | checkpoint _ _ _ => "checkpoint.bin"
  | metadata _ _ _ => "metadata.bin"
  | write _ _ _ _ writeIndex => escape (toString writeIndex) ++ ".bin"

def directory (k : Key) : List String := namespaceSegments k.threadId k.checkpointNs ++ k.dirs

end Key

def valuesSegments (t ns : String) : List String := namespaceSegments t ns ++ ["values"]

def checkpointsSegments (t ns : String) : List String := namespaceSegments t ns ++ ["checkpoints"]

def checkpointSegments (t ns id : String) : List String := checkpointsSegments t ns ++ [escape id]

def writesSegments (t ns id : String) : List String := checkpointSegments t ns id ++ ["writes"]

theorem valuesPrefix_eq (t ns : String) :
    valuesPrefix t ns = Names.directory '/' (valuesSegments t ns) := by
  rw [valuesPrefix, namespacePrefix_eq, valuesSegments, Names.directory_append]
  simp only [Names.directory, String.append_empty,
    eq_append_slash (s := "values/") (t := "values") rfl]

theorem checkpointsPrefix_eq (t ns : String) :
    checkpointsPrefix t ns = Names.directory '/' (checkpointsSegments t ns) := by
  rw [checkpointsPrefix, namespacePrefix_eq, checkpointsSegments, Names.directory_append]
  simp only [Names.directory, String.append_empty,
    eq_append_slash (s := "checkpoints/") (t := "checkpoints") rfl]

theorem checkpointBasePrefix_eq (t ns id : String) :
    checkpointBasePrefix t ns id = Names.directory '/' (checkpointSegments t ns id) := by
  rw [checkpointBasePrefix, checkpointsPrefix_eq, checkpointSegments, Names.directory_append]
  simp only [Names.directory, String.append_empty, slash_eq_singleton, String.append_assoc]

theorem writesPrefix_eq (t ns id : String) :
    writesPrefix t ns id = Names.directory '/' (writesSegments t ns id) := by
  rw [writesPrefix, checkpointBasePrefix_eq, writesSegments, Names.directory_append]
  simp only [Names.directory, String.append_empty,
    eq_append_slash (s := "writes/") (t := "writes") rfl]

namespace Key

theorem path_eq (k : Key) : k.path = Names.directory '/' k.directory ++ k.fileName := by
  cases k with
  | latest t ns =>
    rw [path, latestBlobPath, namespacePrefix_eq, directory, dirs, List.append_nil]
    rfl
  | value t ns channel version =>
    rw [path, valueBlobPath, valuesPrefix_eq,
      show (value t ns channel version).directory = valuesSegments t ns ++ [escape channel] from rfl,
      Names.directory_append]
    simp only [Names.directory, String.append_empty, slash_eq_singleton, String.append_assoc, fileName]
  | checkpoint t ns id => rw [path, checkpointBlobPath, checkpointBasePrefix_eq]; rfl
  | metadata t ns id => rw [path, metadataBlobPath, checkpointBasePrefix_eq]; rfl
  | write t ns id taskId writeIndex =>
    rw [path, writeBlobPath, writesPrefix_eq,
      show (write t ns id taskId writeIndex).directory = writesSegments t ns id ++ [escape taskId]
        from rfl, Names.directory_append]
    simp only [Names.directory, String.append_empty, slash_eq_singleton, String.append_assoc, fileName]

theorem plain_directory (k : Key) : Names.Plain '/' k.directory := by
  refine (plain_namespaceSegments _ _).append fun s hs => ?_
  cases k <;> simp only [dirs, List.not_mem_nil, List.mem_cons, or_false] at hs
  case value => rcases hs with rfl | rfl <;> first | exact plain_escape _ | decide
  case checkpoint => rcases hs with rfl | rfl <;> first | exact plain_escape _ | decide
  case metadata => rcases hs with rfl | rfl <;> first | exact plain_escape _ | decide
  case write =>
    rcases hs with rfl | rfl | rfl | rfl <;> first | exact plain_escape _ | decide

theorem plain_bin (s : String) : '/' ∉ (escape s ++ ".bin").toList := by
  rw [String.toList_append, List.mem_append, not_or]
  exact ⟨plain_escape s, by decide⟩

theorem plain_fileName (k : Key) : '/' ∉ k.fileName.toList := by
  have hplain : ∀ s ∈ ["latest.json", "checkpoint.bin", "metadata.bin"], '/' ∉ s.toList := by decide
  cases k with
  | latest => exact hplain _ (by simp [fileName])
  | value => exact plain_bin _
  | checkpoint => exact hplain _ (by simp [fileName])
  | metadata => exact hplain _ (by simp [fileName])
  | write => exact plain_bin _

theorem split_path (k : Key) : Names.split '/' k.path = k.directory ++ [k.fileName] := by
  rw [path_eq, Names.split_directory k.plain_directory, Names.split_of_plain k.plain_fileName]

theorem toString_injective {i j : Int} (h : (toString i : String) = toString j) : i = j :=
  Option.some_injective _ (by rw [← Decimal.int_toString, h, Decimal.int_toString])

theorem path_injective {k l : Key} (h : k.path = l.path) : k = l := by
  have hsplit : k.directory ++ [k.fileName] = l.directory ++ [l.fileName] := by
    rw [← split_path, h, split_path]
  obtain ⟨hdir, hfile⟩ := List.append_inj' hsplit rfl
  rw [List.singleton_inj] at hfile
  have hname {s t : String} (h : escape s ++ ".bin" = escape t ++ ".bin") : s = t :=
    escape_injective (by rw [← Names.removeSuffix_append (escape s), h, Names.removeSuffix_append])
  cases k <;> cases l <;>
    simp only [directory, dirs, namespaceSegments, threadId, checkpointNs, fileName, List.append_nil,
      List.cons_append, List.nil_append, List.cons.injEq, reduceCtorEq, and_true, true_and, and_false,
      escape_injective.eq_iff] at hdir hfile
  case latest.latest => rw [hdir.1, hdir.2]
  case value.value =>
    obtain ⟨rfl, rfl, rfl⟩ := hdir
    rw [hname hfile]
  case value.checkpoint => exact absurd hdir.2.2.1 (by decide)
  case value.metadata => exact absurd hdir.2.2.1 (by decide)
  case checkpoint.value => exact absurd hdir.2.2.1 (by decide)
  case checkpoint.checkpoint =>
    obtain ⟨rfl, rfl, rfl⟩ := hdir
    rfl
  case checkpoint.metadata => exact absurd hfile (by decide)
  case metadata.value => exact absurd hdir.2.2.1 (by decide)
  case metadata.checkpoint => exact absurd hfile (by decide)
  case metadata.metadata =>
    obtain ⟨rfl, rfl, rfl⟩ := hdir
    rfl
  case write.write =>
    obtain ⟨rfl, rfl, rfl, rfl⟩ := hdir
    rw [toString_injective (hname hfile)]

@[simp] theorem path_inj {k l : Key} : k.path = l.path ↔ k = l :=
  ⟨path_injective, fun h => h ▸ rfl⟩

theorem startswith_iff {k : Key} {p : List String} (hp : Names.Plain '/' p) :
    Names.startswith k.path (Names.directory '/' p) ↔
      ∃ r, r ≠ [] ∧ k.directory ++ [k.fileName] = p ++ r := by
  rw [Names.startswith_directory_iff hp, split_path]

def checkpointId : Key → Option String
  | latest _ _ => none
  | value _ _ _ _ => none
  | checkpoint _ _ id => some id
  | metadata _ _ id => some id
  | write _ _ id _ _ => some id

theorem startswith_threadPrefix {k : Key} :
    Names.startswith k.path (threadPrefix t) ↔ k.threadId = t := by
  rw [threadPrefix_eq, startswith_iff (plain_threadSegments t)]
  simp only [directory, namespaceSegments, threadSegments, List.cons_append, List.nil_append,
    List.cons.injEq, escape_injective.eq_iff, true_and]
  constructor
  · rintro ⟨_, -, h, -⟩
    exact h
  · exact fun h => ⟨_, by simp, h, rfl⟩

theorem startswith_below {k : Key} {tail : List String} (htail : Names.Plain '/' tail) :
    Names.startswith k.path (Names.directory '/' (namespaceSegments t ns ++ tail)) ↔
      k.threadId = t ∧ k.checkpointNs = ns ∧ ∃ r, r ≠ [] ∧ k.dirs ++ [k.fileName] = tail ++ r := by
  rw [startswith_iff ((plain_namespaceSegments t ns).append htail)]
  simp only [directory, namespaceSegments, List.cons_append, List.nil_append, List.cons.injEq,
    escape_injective.eq_iff, true_and]
  constructor
  · rintro ⟨r, hr, ht, hns, h⟩
    exact ⟨ht, hns, r, hr, h⟩
  · rintro ⟨ht, hns, r, hr, h⟩
    exact ⟨r, hr, ht, hns, h⟩

theorem startswith_namespacePrefix {k : Key} :
    Names.startswith k.path (namespacePrefix t ns) ↔ k.threadId = t ∧ k.checkpointNs = ns := by
  rw [namespacePrefix_eq, ← List.append_nil (namespaceSegments t ns),
    startswith_below fun _ h => (List.not_mem_nil h).elim]
  exact and_congr_right fun _ => and_iff_left ⟨_, by simp, rfl⟩

theorem startswith_valuesPrefix {k : Key} :
    Names.startswith k.path (valuesPrefix t ns) ↔
      ∃ channel version, k = value t ns channel version := by
  rw [valuesPrefix_eq, valuesSegments, startswith_below (by simp [Names.Plain])]
  cases k <;> simp [dirs, fileName, threadId, checkpointNs]

theorem startswith_checkpointsPrefix {k : Key} :
    Names.startswith k.path (checkpointsPrefix t ns) ↔
      k.threadId = t ∧ k.checkpointNs = ns ∧ k.checkpointId.isSome := by
  rw [checkpointsPrefix_eq, checkpointsSegments, startswith_below (by simp [Names.Plain])]
  cases k <;> simp [dirs, fileName, checkpointId]

theorem startswith_checkpointBasePrefix {k : Key} {id : String} :
    Names.startswith k.path (checkpointBasePrefix t ns id) ↔
      k.threadId = t ∧ k.checkpointNs = ns ∧ k.checkpointId = some id := by
  rw [checkpointBasePrefix_eq, checkpointSegments, checkpointsSegments, List.append_assoc,
    startswith_below (by simp [Names.Plain, plain_escape])]
  cases k <;> simp [dirs, fileName, checkpointId, escape_injective.eq_iff]

theorem startswith_writesPrefix {k : Key} {id : String} :
    Names.startswith k.path (writesPrefix t ns id) ↔
      ∃ taskId writeIndex, k = write t ns id taskId writeIndex := by
  rw [writesPrefix_eq, writesSegments, checkpointSegments, checkpointsSegments, List.append_assoc,
    List.append_assoc, startswith_below (by simp [Names.Plain, plain_escape])]
  cases k <;> simp [dirs, fileName, threadId, checkpointNs, escape_injective.eq_iff]

theorem checkpoint_lt_metadata (t ns id : String) :
    (checkpoint t ns id).path < (metadata t ns id).path := by
  rw [path, path, checkpointBlobPath, metadataBlobPath, Names.append_lt_append_left_iff]
  decide

theorem marker_lt_writes (s : String) : "checkpoint.bin" < "writes/" ++ s := by
  change _ < ("writes/" ++ s).toList
  rw [String.toList_append]
  exact List.cons_lt_cons_iff.mpr (.inl (by decide))

theorem checkpoint_lt_write (t ns id taskId : String) (writeIndex : Int) :
    (checkpoint t ns id).path < (write t ns id taskId writeIndex).path := by
  simp only [path, checkpointBlobPath, writeBlobPath, writesPrefix, String.append_assoc]
  rw [Names.append_lt_append_left_iff]
  exact marker_lt_writes _

theorem checkpoint_lt {k : Key} {id : String} (ht : k.threadId = t) (hns : k.checkpointNs = ns)
    (hid : k.checkpointId = some id) (hne : k ≠ checkpoint t ns id) :
    (checkpoint t ns id).path < k.path := by
  cases k with
  | latest => cases hid
  | value => cases hid
  | checkpoint => cases ht; cases hns; cases hid; exact absurd rfl hne
  | metadata => cases ht; cases hns; cases hid; exact checkpoint_lt_metadata ..
  | write => cases ht; cases hns; cases hid; exact checkpoint_lt_write ..

end Key

end LangGraphFunctions.Checkpointers
