import TypedIR.Module
import TypedIR.Text

/-! Fingerprints. A module is written as a sequence of bytes, lists and strings with their length in
front, and the sequence is folded into one word. -/

namespace TypedIR

namespace Fingerprint

def mix (h : UInt64) (b : UInt8) : UInt64 := (h ^^^ b.toUInt64) * 0x100000001B3

def fnv1a (bytes : List UInt8) : UInt64 := bytes.foldl mix 0xCBF29CE484222325

def word (n : Nat) : List UInt8 := (List.range 8).map fun i => (n / Nat.pow 256 i).toUInt8

@[simp] theorem length_word (n : Nat) : (word n).length = 8 := by simp [word]

def code (n : Nat) : List UInt8 :=
  let low := n % Nat.pow 2 32
  word (if low < Nat.pow 2 31 then low else low + (Nat.pow 2 64 - Nat.pow 2 32))

def flag (b : Bool) : List UInt8 := word (if b then 1 else 0)

def bytes (s : String) : List UInt8 := word s.length ++ Text.bytes s

def list {α : Type} (item : α → List UInt8) (xs : List α) : List UInt8 :=
  word xs.length ++ xs.flatMap item

def type (t : TypeRef) : List UInt8 := word t.context ++ word t.id

def value (v : Value) : List UInt8 :=
  word v.kind.code ++ type v.type ++ word v.id ++ word v.scope ++ flag v.isFunction

def optional (n : Option Nat) : List UInt8 := word ((n.map (· + 1)).getD 0)

/-- A block counts by its number alone. -/
def block (b : Option BlockRef) : List UInt8 := optional (b.map (·.id))

def instr (i : Instr) : List UInt8 :=
  word i.op.code ++ type i.type ++ optional i.result ++ code i.predicate.code
    ++ type i.typeOperand ++ list value i.operands ++ list block i.targets
    ++ list block i.incoming

def body (b : Block) : List UInt8 := bytes b.label ++ list instr b.instrs

def func (f : Func) : List UInt8 :=
  bytes f.name ++ type f.type ++ code f.linkage.code ++ list type (f.temps.map (·.type))
    ++ list body (f.blocks.entries.map Prod.snd)

def global (g : Global) : List UInt8 :=
  bytes g.name ++ type g.type ++ code g.linkage.code ++ flag g.isConstant ++ flag g.init.isSome
    ++ (g.init.map value).getD []

end Fingerprint

namespace Module

/-- The bytes that a fingerprint depends on. -/
def encoding (m : Module) : List UInt8 :=
  Fingerprint.bytes m.name ++ Fingerprint.word m.serial
    ++ Fingerprint.list Fingerprint.global m.globals ++ Fingerprint.list Fingerprint.func m.funcs

def fingerprint (m : Module) : UInt64 := Fingerprint.fnv1a m.encoding

end Module

end TypedIR
