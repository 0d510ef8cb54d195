import TypedIR.Type.Registry

namespace TypedIR

def commaList (texts : List String) : String := ", ".intercalate texts

namespace TypeDesc

def fieldList (text : TypeRef → String) (fields : List TypeRef) (packed : Bool) : String :=
  let inner := if fields.isEmpty then "" else s!" {commaList (fields.map text)} "
  if packed then "<\x7b" ++ inner ++ "\x7d>" else "\x7b" ++ inner ++ "\x7d"

def text (part : TypeRef → String) : TypeDesc → String
  | void => "void"
  | int bits => s!"i{bits}"
  | float kind => kind.spelling
  | pointer space => if space = 0 then "ptr" else s!"ptr addrspace({space})"
  | array elem count => s!"[{count} x {part elem}]"
  | vector elem count => s!"<{count} x {part elem}>"
  | struct fields packed => fieldList part fields packed
  | named name _ => "%" ++ name
  | fn result params variadic =>
    let tail := if variadic then ["..."] else []
    s!"{part result} ({commaList (params.map part ++ tail)})"

end TypeDesc

namespace TypeRegistry

def invalidText : String := "<invalid type>"

def textWithin (r : TypeRegistry) : Nat → TypeRef → String
  | 0, _ => invalidText
  | depth + 1, t =>
    match r.lookup t with
    | none => invalidText
    | some d => d.text (r.textWithin depth)

/-- Parts are made before the types they are parts of, so a type's place bounds its depth. -/
def text (r : TypeRegistry) (t : TypeRef) : String := r.textWithin t.id t

def bodyText (r : TypeRegistry) (t : TypeRef) : String :=
  match r.lookup t with
  | some (.struct fields packed) | some (.named _ (some (fields, packed))) =>
    TypeDesc.fieldList r.text fields packed
  | some (.named _ none) => "opaque"
  | _ => invalidText

end TypeRegistry

end TypedIR
