namespace TypedIR

inductive Opcode
  | add | sub | mul | sdiv | udiv | srem | urem | and | or | xor | shl | lshr | ashr
  | fadd | fsub | fmul | fdiv | frem | fneg
  | icmp | fcmp
  | trunc | zext | sext | fptrunc | fpext | fptosi | fptoui | sitofp | uitofp
  | ptrtoint | inttoptr | bitcast | addrspacecast
  | alloca | load | store
  | call | select | phi
  | br | condbr | switch | ret | unreachable
  deriving DecidableEq, Inhabited

/-- Does an instruction define a temporary? `byCallee`: if the called signature has a result. -/
inductive ResultArity
  | never | always | byCallee
  deriving DecidableEq

def ResultArity.code : ResultArity → Nat
  | never => 0
  | always => 1
  | byCallee => 255

inductive OpcodeCategory
  | intBinary | floatBinary | floatUnary | compare | cast | memory | call | select | phi
  | terminator
  deriving DecidableEq

namespace OpcodeCategory

def code : OpcodeCategory → Nat
  | intBinary => 0
  | floatBinary => 1
  | floatUnary => 2
  | compare => 3
  | cast => 4
  | memory => 5
  | call => 6
  | select => 7
  | phi => 8
  | terminator => 9

end OpcodeCategory

namespace Opcode

def all : List Opcode :=
  [add, sub, mul, sdiv, udiv, srem, urem, and, or, xor, shl, lshr, ashr,
   fadd, fsub, fmul, fdiv, frem, fneg, icmp, fcmp,
   trunc, zext, sext, fptrunc, fpext, fptosi, fptoui, sitofp, uitofp,
   ptrtoint, inttoptr, bitcast, addrspacecast,
   alloca, load, store, call, select, phi, br, condbr, switch, ret, unreachable]

def code (op : Opcode) : Nat := all.idxOf op

def ofCode? (n : Nat) : Option Opcode := all[n]?

theorem ofCode?_code (op : Opcode) : ofCode? op.code = some op := by cases op <;> rfl

def mnemonic : Opcode → String
  | add => "add" | sub => "sub" | mul => "mul" | sdiv => "sdiv" | udiv => "udiv"
  | srem => "srem" | urem => "urem" | and => "and" | or => "or" | xor => "xor"
  | shl => "shl" | lshr => "lshr" | ashr => "ashr"
  | fadd => "fadd" | fsub => "fsub" | fmul => "fmul" | fdiv => "fdiv" | frem => "frem"
  | fneg => "fneg" | icmp => "icmp" | fcmp => "fcmp"
  | trunc => "trunc" | zext => "zext" | sext => "sext" | fptrunc => "fptrunc"
  | fpext => "fpext" | fptosi => "fptosi" | fptoui => "fptoui" | sitofp => "sitofp"
  | uitofp => "uitofp" | ptrtoint => "ptrtoint" | inttoptr => "inttoptr"
  | bitcast => "bitcast" | addrspacecast => "addrspacecast"
  | alloca => "alloca" | load => "load" | store => "store"
  | call => "call" | select => "select" | phi => "phi"
  | br => "br" | condbr => "condbr" | switch => "switch" | ret => "ret"
  | unreachable => "unreachable"

def category : Opcode → OpcodeCategory
  | add | sub | mul | sdiv | udiv | srem | urem | and | or | xor | shl | lshr | ashr => .intBinary
  | fadd | fsub | fmul | fdiv | frem => .floatBinary
  | fneg => .floatUnary
  | icmp | fcmp => .compare
  | trunc | zext | sext | fptrunc | fpext | fptosi | fptoui | sitofp | uitofp
  | ptrtoint | inttoptr | bitcast | addrspacecast => .cast
  | alloca | load | store => .memory
  | call => .call
  | select => .select
  | phi => .phi
  | br | condbr | switch | ret | unreachable => .terminator

def isTerminator (op : Opcode) : Bool := op.category = .terminator

def resultArity : Opcode → ResultArity
  | store | br | condbr | switch | ret | unreachable => .never
  | call => .byCallee
  | _ => .always

def minOperands : Opcode → Nat
  | fneg | load | call | condbr | switch => 1
  | alloca | phi | br | ret | unreachable => 0
  | select => 3
  | op => if op.category = .cast then 1 else 2

def maxOperands? : Opcode → Option Nat
  | call | phi | switch => none
  | alloca | ret => some 1
  | op => some op.minOperands

def successors? : Opcode → Option Nat
  | br => some 1
  | condbr => some 2
  | switch => none
  | _ => some 0

def needsTypeOperand : Opcode → Bool
  | alloca | call => true
  | _ => false

end Opcode

end TypedIR
