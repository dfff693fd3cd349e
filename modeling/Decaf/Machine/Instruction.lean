import Decaf.Binary64.Text
import Decaf.DataType
import Decaf.Text.Escape

/-!
# Instructions of the abstract machine

The machine has numbered general registers and one register for the result of a call. A frame holds
the receiver, the arguments, the locals and the spilled temporaries of a call in numbered slots;
objects lie on a heap, static fields in an area of their own. Every instruction has one written
form.
-/

namespace Decaf

/-- A machine register. -/
inductive Register where
  | general (index : Nat)
  /-- Holds the result of the last call. -/
  | result
  deriving DecidableEq, Repr, Inhabited

namespace Register

/-- How many general registers an instruction can name. -/
def nameCount : Nat := 256

/-- The register's written form. -/
def render : Register → String
  | .general index => "r" ++ toString index
  | .result => "rv"

instance : ToString Register := ⟨render⟩

end Register

/-- Operations on two words, for integers and references (`i…`) and for doubles (`f…`). -/
inductive BinaryOpcode where
  | iadd | isub | imul | idiv | ilt | ileq | igt | igeq | ieq | ine
  | fadd | fsub | fmul | fdiv | flt | fleq | fgt | fgeq | feq | fne
  deriving DecidableEq, Repr

namespace BinaryOpcode

/-- The operation's mnemonic. -/
def mnemonic : BinaryOpcode → String
  | .iadd => "iadd"
  | .isub => "isub"
  | .imul => "imul"
  | .idiv => "idiv"
  | .ilt => "ilt"
  | .ileq => "ileq"
  | .igt => "igt"
  | .igeq => "igeq"
  | .ieq => "ieq"
  | .ine => "ine"
  | .fadd => "fadd"
  | .fsub => "fsub"
  | .fmul => "fmul"
  | .fdiv => "fdiv"
  | .flt => "flt"
  | .fleq => "fleq"
  | .fgt => "fgt"
  | .fgeq => "fgeq"
  | .feq => "feq"
  | .fne => "fne"

/-- All operations on two words. -/
def all : List BinaryOpcode :=
  [.iadd, .isub, .imul, .idiv, .ilt, .ileq, .igt, .igeq, .ieq, .ine, .fadd, .fsub, .fmul,
    .fdiv, .flt, .fleq, .fgt, .fgeq, .feq, .fne]

/-- The operation with a given mnemonic. -/
def ofMnemonic? (written : String) : Option BinaryOpcode :=
  all.find? fun opcode => opcode.mnemonic = written

end BinaryOpcode

/-- Operations on one word. -/
inductive UnaryOpcode where
  | ineg
  | fneg
  | not
  deriving DecidableEq, Repr

namespace UnaryOpcode

/-- The operation's mnemonic. -/
def mnemonic : UnaryOpcode → String
  | .ineg => "ineg"
  | .fneg => "fneg"
  | .not => "not"

/-- The operation with a given mnemonic. -/
def ofMnemonic? (written : String) : Option UnaryOpcode :=
  [ineg, fneg, not].find? fun opcode => opcode.mnemonic = written

end UnaryOpcode

/-- The types of values that can be printed. -/
inductive PrintKind where
  | int
  | double
  | bool
  | string
  deriving DecidableEq, Repr

namespace PrintKind

/-- How values of a primitive type are printed; there are none of type `void`. -/
def ofPrimitive? : Primitive → Option PrintKind
  | .int => some .int
  | .double => some .double
  | .bool => some .bool
  | .string => some .string
  | .void => none

/-- The mnemonic of the print instruction. -/
def mnemonic : PrintKind → String
  | .int => "print_i"
  | .double => "print_f"
  | .bool => "print_b"
  | .string => "print_s"

end PrintKind

/-- An instruction, a label or a directive. A target register comes before what is put into it. -/
inductive Instruction where
  /-- Names the place of the next instruction. -/
  | label (name : String)
  /-- Reserves the words of all static fields. -/
  | staticData (words : Nat)
  /-- Defines the vtable of a class by the labels of its methods. -/
  | vtable (name : String) (slots : List String)
  | moveInt (target : Register) (value : Int32)
  | moveDouble (target : Register) (value : Binary64)
  | moveString (target : Register) (value : String)
  | moveLabel (target : Register) (name : String)
  | move (target source : Register)
  | loadStack (target : Register) (slot : Nat)
  | storeStack (slot : Nat) (source : Register)
  | loadHeap (target base : Register) (offset : Nat)
  | storeHeap (base : Register) (offset : Nat) (source : Register)
  | loadStatic (target : Register) (offset : Nat)
  | storeStatic (offset : Nat) (source : Register)
  | binary (opcode : BinaryOpcode) (target left right : Register)
  | unary (opcode : UnaryOpcode) (target source : Register)
  | jump (name : String)
  | branchIfZero (condition : Register) (name : String)
  | branchIfNonzero (condition : Register) (name : String)
  | push (source : Register)
  | pop (words : Nat)
  | call (name : String)
  /-- Calls the method in a slot of the vtable that a register holds. -/
  | callVirtual (table : Register) (slot : Nat)
  /-- Makes room for the locals and the spilled temporaries of a method. -/
  | enter (slots : Nat)
  | ret
  | retValue (source : Register)
  | halt
  | allocate (target : Register) (words : Nat)
  | print (kind : PrintKind) (source : Register)
  deriving DecidableEq, Repr

namespace Instruction

/-- Whether a line stands at the left margin: labels and directives do, instructions are
indented. -/
def isFlushLeft : Instruction → Bool
  | .label _ | .staticData _ | .vtable .. => true
  | _ => false

/-- Whether control never passes on to the next instruction. -/
def isTerminator : Instruction → Bool
  | .jump _ | .ret | .retValue _ | .halt => true
  | _ => false

/-- The instruction's written form. -/
def render : Instruction → String
  | .label name => s!"{name}:"
  | .staticData words => s!".static_data {words}"
  | .vtable name [] => s!".vtable {name}"
  | .vtable name slots => s!".vtable {name} " ++ ", ".intercalate slots
  | .moveInt target value => s!"move_immed_i {target}, {value}"
  | .moveDouble target value => s!"move_immed_f {target}, " ++ value.render .listing
  | .moveString target value => s!"move_immed_s {target}, " ++ quoted .listing value
  | .moveLabel target name => s!"move_label {target}, {name}"
  | .move target source => s!"move {target}, {source}"
  | .loadStack target slot => s!"load_stack {target}, {slot}"
  | .storeStack slot source => s!"store_stack {slot}, {source}"
  | .loadHeap target base offset => s!"hload {target}, {base}, {offset}"
  | .storeHeap base offset source => s!"hstore {base}, {offset}, {source}"
  | .loadStatic target offset => s!"sload {target}, {offset}"
  | .storeStatic offset source => s!"sstore {offset}, {source}"
  | .binary opcode target left right => s!"{opcode.mnemonic} {target}, {left}, {right}"
  | .unary opcode target source => s!"{opcode.mnemonic} {target}, {source}"
  | .jump name => s!"jmp {name}"
  | .branchIfZero condition name => s!"bz {condition}, {name}"
  | .branchIfNonzero condition name => s!"bnz {condition}, {name}"
  | .push source => s!"push {source}"
  | .pop words => s!"popn {words}"
  | .call name => s!"call {name}"
  | .callVirtual table slot => s!"vcall {table}, {slot}"
  | .enter slots => s!"enter {slots}"
  | .ret => "ret"
  | .retValue source => s!"ret {source}"
  | .halt => "halt"
  | .allocate target words => s!"halloc {target}, {words}"
  | .print kind source => s!"{kind.mnemonic} {source}"

/-- The line of an instruction in a listing. -/
def line (instruction : Instruction) : String :=
  if instruction.isFlushLeft then instruction.render else "    " ++ instruction.render

end Instruction

end Decaf
