import LangGraphFunctions.Stores.TableJson

namespace LangGraphFunctions.Stores

open Lib

variable {entity entity' : Entity} {field key encoded : String}

theorem ownsKey_self (field : String) : ownsKey field field := by
  simp [ownsKey]

theorem ownsKey_partKey (field part : String) : ownsKey field (partKey field part) := by
  rw [ownsKey, Bool.or_eq_true, Names.startswith_iff]
  exact .inr ⟨part, by rw [partKey, ← String.append_assoc]⟩

theorem ownsKey_of_mem_jsonProperties {p : String × Property}
    (h : p ∈ jsonProperties field encoded) : ownsKey field p.1 := by
  rw [jsonProperties] at h
  split at h
  · rw [List.mem_singleton.mp h]
    exact ownsKey_self field
  · simp only [List.mem_cons] at h
    obtain rfl | rfl | h := h
    · exact ownsKey_partKey ..
    · exact ownsKey_partKey ..
    · obtain ⟨i, hi, rfl⟩ := List.mem_mapIdx.mp h
      exact ownsKey_partKey ..

theorem get?_writeText (h : ownsKey field key = false) :
    (writeText entity field encoded).get? key = entity.get? key := by
  have hnot : key ∉ (jsonProperties field encoded).map Prod.fst := by
    intro hmem
    obtain ⟨p, hp, rfl⟩ := List.mem_map.mp hmem
    rw [ownsKey_of_mem_jsonProperties hp] at h
    exact nomatch h
  rw [writeText, Dict.get?_foldl_set_of_not_mem hnot, Dict.get?_filterKeys, h]
  rfl

theorem writeJson_eq_ok {value : Json.Value} :
    writeJson entity field value = .ok entity' ↔
      ∃ encoded, dumps value false = .ok encoded ∧ writeText entity field encoded = entity' := by
  rw [writeJson]
  cases dumps value false with
  | ok encoded =>
    constructor
    · rintro ⟨⟩
      exact ⟨encoded, rfl, rfl⟩
    · rintro ⟨_, ⟨⟩, rfl⟩
      rfl
  | error e =>
    constructor
    · exact fun h => nomatch h
    · rintro ⟨_, ⟨⟩, _⟩

theorem get?_writeJson {value : Json.Value} (hwrite : writeJson entity field value = .ok entity')
    (h : ownsKey field key = false) : entity'.get? key = entity.get? key := by
  obtain ⟨encoded, -, rfl⟩ := writeJson_eq_ok.mp hwrite
  exact get?_writeText h

theorem get?_writeOptionalJson {value : Option Json.Value}
    (hwrite : writeOptionalJson entity field value = .ok entity') (h : ownsKey field key = false) :
    entity'.get? key = entity.get? key := by
  cases value with
  | none => cases hwrite; rfl
  | some value => exact get?_writeJson hwrite h

end LangGraphFunctions.Stores
