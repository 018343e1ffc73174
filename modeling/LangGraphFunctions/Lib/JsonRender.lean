import LangGraphFunctions.Lib.JsonLaws

/-! Values as the encoder's hook renders them. -/

namespace LangGraphFunctions.Lib.Json

variable {style : Style} {allowNan : Bool}

mutual

def Value.rendered : Value → Value
  | .list xs => .list (renderedElems xs)
  | .dict items => .dict (renderedMembers items)
  | .object v => v.rendered
  | v => v

def renderedElems : List Value → List Value
  | [] => []
  | v :: vs => v.rendered :: renderedElems vs

def renderedMembers : List (Key × Value) → List (Key × Value)
  | [] => []
  | (k, v) :: items => (k, v.rendered) :: renderedMembers items

end

theorem renderedElems_eq (vs : List Value) : renderedElems vs = vs.map Value.rendered := by
  induction vs with
  | nil => rfl
  | cons v vs ih => rw [renderedElems, ih, List.map_cons]

theorem renderedMembers_eq (items : List (Key × Value)) :
    renderedMembers items = items.map fun p => (p.1, p.2.rendered) := by
  induction items with
  | nil => rfl
  | cons p items ih => rw [renderedMembers, ih, List.map_cons]

mutual

theorem emit_rendered (v : Value) :
    emit style allowNan v.rendered = emit style allowNan v := by
  cases v with
  | list xs => rw [Value.rendered, emit, emit, emitElems_rendered xs]
  | dict items => rw [Value.rendered, emit, emit, emitMembers_rendered items]
  | object v => rw [Value.rendered, emit_rendered v, emit]
  | _ => rfl

theorem emitElems_rendered (vs : List Value) :
    emitElems style allowNan (renderedElems vs) = emitElems style allowNan vs := by
  cases vs with
  | nil => rfl
  | cons v vs => rw [renderedElems, emitElems, emitElems, emit_rendered v, emitElems_rendered vs]

theorem emitMembers_rendered (items : List (Key × Value)) :
    emitMembers style allowNan (renderedMembers items) = emitMembers style allowNan items := by
  cases items with
  | nil => rfl
  | cons p items =>
    rw [renderedMembers, emitMembers, emitMembers, emit_rendered p.2, emitMembers_rendered items]

end

theorem rendered_of_isJson {v : Value} (h : IsJson v) : v.rendered = v := by
  induction h with
  | list h ih =>
    rw [Value.rendered, renderedElems_eq]
    exact congrArg Value.list ((List.map_congr_left ih).trans (List.map_id _))
  | dict hkeys hnodup h ih =>
    rw [Value.rendered, renderedMembers_eq]
    refine congrArg Value.dict ((List.map_congr_left fun p hp => ?_).trans (List.map_id _))
    rw [ih p hp]
    rfl
  | _ => rfl

theorem emit_of_isJson {v : Value} (h : IsJson v) : ∃ cs, emit style allowNan v = .ok cs := by
  induction h with
  | list h ih =>
    obtain ⟨parts, hparts⟩ := emitElems_ok ih
    exact ⟨_, by rw [emit, hparts]; rfl⟩
  | dict hkeys hnodup h ih =>
    obtain ⟨parts, hparts⟩ := emitMembers_ok hkeys ih
    exact ⟨_, by rw [emit, hparts]; rfl⟩
  | _ => exact ⟨_, rfl⟩

theorem dumps_rendered (v : Value) : dumps style allowNan v.rendered = dumps style allowNan v := by
  rw [dumps, dumps, emit_rendered]

theorem dumps_of_isJson {v : Value} (h : IsJson v.rendered) :
    ∃ text, dumps style allowNan v = .ok text := by
  obtain ⟨cs, hcs⟩ : ∃ cs, emit style allowNan v.rendered = .ok cs := emit_of_isJson h
  rw [emit_rendered] at hcs
  exact ⟨_, by rw [dumps, hcs]; rfl⟩

theorem loads_dumps_rendered {v : Value} (h : IsJson v.rendered) {text : String}
    (htext : dumps style allowNan v = .ok text) : loads text = some v.rendered :=
  loads_dumps h ((dumps_rendered v).trans htext)

end LangGraphFunctions.Lib.Json
