import CanisterShell.Proofs.Syntax.Ebnf
import CanisterShell.Proofs.Syntax.Viable

/-!
# The grammars as they are written

Scripts, types and interfaces have grammars that are written for readers: operators associate by left
recursion, alternatives have beginnings in common, and lists have their marks where it suits.  The
rules that are read have the same languages (`language_spelling`), and so just what derives from the
written grammars is accepted, and a refusal comes where no sequence that derives goes on, with just
the terminals that could have gone on (`parseTokens_exact`).

The two grammars are compared by languages for the symbols of the one that are made of those of the
other.  Where both have the same phrases, the sums and products that their right-hand sides stand for
are the same; for the lists and the operators, the equations that the one grammar gives by recursion
have the repetitions of the other one as their only solutions.
-/

namespace CanisterShell.Syntax

/-! ## The written grammars -/

/-- The symbols of the written grammars. -/
inductive RuleName where
  | datatype | typeField | fieldLabel | funcType | tupleType | argType | actorBody | methodSig
  | commands | command | letCmd | showCmd | assertCmd | importCmd | configCmd | identityCmd
  | exportCmd | loadCmd | funcCmd | ifCmd | whileCmd | block
  | exp | arith | term | unary | primary | path | selector | apply | method | args
  | callExp | encodeExp | decodeExp | failExp | literal | field
  | prog | definition | actor

namespace RuleName

open Ebnf (row oneOf optional repeated)

abbrev NAME : Ebnf RuleName := .token .name
abbrev TEXT : Ebnf RuleName := .token .text
abbrev NUMBER : Ebnf RuleName := .token .number
abbrev ASSERT_OP : Ebnf RuleName := .token .assertOp

instance : Coe RuleName (Ebnf RuleName) := ⟨.rule⟩

/-- The right-hand sides. -/
def written : RuleName → Ebnf RuleName
  -- types
  | datatype => oneOf NAME [
      "null",
      "principal",
      "blob",
      row ["opt", datatype],
      row ["vec", datatype],
      row ["record", "\x7b", repeated (row [typeField, ";"]), optional typeField, "\x7d"],
      row ["variant", "\x7b", repeated (row [typeField, ";"]), optional typeField, "\x7d"],
      row ["func", funcType],
      row ["service", actorBody]]
  | typeField => oneOf (row [fieldLabel, ":", datatype]) [datatype, TEXT]
  | fieldLabel => oneOf NAME [TEXT, NUMBER]
  | funcType => row [tupleType, "->", tupleType, repeated NAME]
  | tupleType => row ["(",
      optional (row [argType, repeated (row [",", argType]), optional ","]), ")"]
  | argType => oneOf (row [NAME, ":", datatype]) [datatype]
  | actorBody => row ["\x7b", repeated (row [methodSig, ";"]), optional methodSig, "\x7d"]
  | methodSig => row [oneOf NAME [TEXT], ":", oneOf funcType [NAME]]
  -- scripts
  | commands => row [repeated (row [optional command, ";"]), optional command]
  | command => oneOf letCmd [assertCmd, importCmd, configCmd, identityCmd, exportCmd, loadCmd,
      funcCmd, ifCmd, whileCmd, showCmd]
  | letCmd => row ["let", NAME, "=", exp]
  | showCmd => exp
  | assertCmd => row ["assert", exp, ASSERT_OP, exp]
  | importCmd => row ["import", NAME, "=", TEXT, optional (row ["as", TEXT])]
  | configCmd => row ["config", TEXT]
  | identityCmd => row ["identity", NAME, optional exp]
  | exportCmd => row ["export", TEXT]
  | loadCmd => row ["load", TEXT]
  | funcCmd => row ["function", NAME, "(",
      optional (row [NAME, repeated (row [",", NAME])]), ")", block]
  | ifCmd => row ["if", exp, block, optional (row ["else", oneOf block [ifCmd]])]
  | whileCmd => row ["while", exp, block]
  | block => row ["\x7b", commands, "\x7d"]
  -- expressions
  | exp => oneOf arith [row [arith, ":", datatype]]
  | arith => oneOf (row [arith, "+", term]) [row [arith, "-", term], term]
  | term => oneOf (row [term, "*", unary]) [row [term, "/", unary], unary]
  | unary => oneOf primary [row ["-", NUMBER], row ["+", NUMBER], row ["-", "inf"]]
  | primary => oneOf literal [path, apply, callExp, encodeExp, decodeExp, failExp,
      row ["(", exp, ")"]]
  | path => row [NAME, repeated selector]
  | selector => oneOf "?" [
      row [".", NAME],
      row [".", NUMBER],
      row [".", TEXT],
      row ["[", exp, "]"],
      row [".", NAME, "(", optional (row [exp, repeated (row [",", exp])]), ")"]]
  | apply => row [NAME, "(", optional (row [exp, repeated (row [",", exp]), optional ","]), ")"]
  | method => row [oneOf NAME [TEXT], ".", NAME]
  | args => row ["(", optional (row [exp, repeated (row [",", exp]), optional ","]), ")"]
  | callExp => oneOf (row ["call", method, args]) [row ["call", "as", NAME, method, args]]
  | encodeExp => oneOf (row ["encode", method, args]) [row ["encode", args]]
  | decodeExp => oneOf (row ["decode", "as", method, primary]) [row ["decode", primary]]
  | failExp => row ["fail", primary]
  | literal => oneOf "null" [
      "true",
      "false",
      NUMBER,
      "nan",
      "inf",
      TEXT,
      row ["blob", TEXT],
      row ["principal", TEXT],
      row ["service", TEXT],
      row ["func", TEXT, ".", NAME],
      row ["opt", unary],
      row ["vec", "\x7b", repeated (row [exp, ";"]), optional exp, "\x7d"],
      row ["record", "\x7b", repeated (row [field, ";"]), optional field, "\x7d"],
      row ["variant", "\x7b", field, "\x7d"]]
  | field => oneOf (row [fieldLabel, "=", exp]) [exp]
  -- interfaces
  | prog => row [repeated (row [definition, ";"]), optional definition,
      optional (row [actor, optional ";"])]
  | definition => oneOf (row ["type", NAME, "=", datatype]) [row ["import", TEXT]]
  | actor => row ["service", optional NAME, ":", optional (row [tupleType, "->"]),
      oneOf actorBody [NAME]]

end RuleName

namespace Phrase

/-- The rules that are read, without what they mean. -/
def spelling (n : Nonterminal) : Ebnf Nonterminal := (rules n).erase

end Phrase

/-! ## Languages that fit together -/

open Ebnf (row oneOf optional repeated)
open Computability

/-- The symbols whose right-hand sides the rules have in their place. -/
def RuleName.isInlined : RuleName → Bool
  | .datatype | .exp | .arith | .term | .unary | .primary | .commands | .command | .ifCmd
  | .prog => false
  | _ => true

/-- The nonterminals have the languages of the symbols after which they are named. -/
structure Fits (K : Nonterminal → Language Terminal) (L : RuleName → Language Terminal) : Prop where
  inlined (s : RuleName) (h : s.isInlined = true) : L s = s.written.denote L
  datatype : K .datatype = L .datatype
  exp : K .exp = L .exp
  unary : K .unary = L .unary
  primary : K .primary = L .primary
  commands : K .commands = L .commands
  command : K .command = L .command
  ifCommand : K .ifCommand = L .ifCmd

/-- What is written in the place of a nonterminal that stands for a list. -/
def listed : Nonterminal → Ebnf RuleName
  | .typeFields => row [repeated (row [RuleName.typeField, ";"]), optional RuleName.typeField]
  | .methodSigs => row [repeated (row [RuleName.methodSig, ";"]), optional RuleName.methodSig]
  | .items => row [repeated (row [RuleName.exp, ";"]), optional RuleName.exp]
  | .fields => row [repeated (row [RuleName.field, ";"]), optional RuleName.field]
  | .typeArgs =>
    optional (row [RuleName.argType, repeated (row [",", RuleName.argType]), optional ","])
  | .args => optional (row [RuleName.exp, repeated (row [",", RuleName.exp]), optional ","])
  | _ => .nothing

/-- The nonterminals of lists have the languages of what is written in their place, and so do the
fields of values. -/
structure Fits.Listed (K : Nonterminal → Language Terminal) (L : RuleName → Language Terminal) :
    Prop extends Fits K L where
  typeFields : K .typeFields = (listed .typeFields).denote L
  methodSigs : K .methodSigs = (listed .methodSigs).denote L
  items : K .items = (listed .items).denote L
  fields : K .fields = (listed .fields).denote L
  typeArgs : K .typeArgs = (listed .typeArgs).denote L
  args : K .args = (listed .args).denote L
  field : K .field = L .field

/-- The factors that may follow an operand. -/
def factors (K : Nonterminal → Language Terminal) : Language Terminal :=
  ({[.fixed "*"]} * K .unary + {[.fixed "/"]} * K .unary)∗

/-- The terms that may follow one. -/
def terms (K : Nonterminal → Language Terminal) : Language Terminal :=
  ({[.fixed "+"]} * (K .unary * factors K) + {[.fixed "-"]} * (K .unary * factors K))∗

namespace Fits

variable {K : Nonterminal → Language Terminal} {L : RuleName → Language Terminal}

attribute [local simp] Phrase.spelling Ebnf.row Ebnf.oneOf Ebnf.optional Phrase.ref Phrase.nameTok
  Phrase.textTok Phrase.numberTok Phrase.quotedText Phrase.anyName Phrase.ofType RuleName.written
  mul_add add_mul mul_assoc

/-! ### Types -/

theorem tupleType_eq (h : Fits K L) (hargs : K .typeArgs = (listed .typeArgs).denote L) :
    Phrase.tupleType.erase.denote K = L .tupleType := by
  simp [-add_eq_sup, Phrase.tupleType, h.inlined .tupleType rfl, hargs, listed]

theorem funcType_eq (h : Fits K L) (hargs : K .typeArgs = (listed .typeArgs).denote L) :
    Phrase.funcType.erase.denote K = L .funcType := by
  simp [-add_eq_sup, Phrase.funcType, h.inlined .funcType rfl,
    h.tupleType_eq hargs]

theorem methodSig_eq (h : Fits K L) (hargs : K .typeArgs = (listed .typeArgs).denote L) :
    Phrase.methodSig.erase.denote K = L .methodSig := by
  simp [-add_eq_sup, Phrase.methodSig, h.inlined .methodSig rfl,
    h.funcType_eq hargs]

theorem serviceBody_eq (h : Listed K L) : Phrase.serviceBody.erase.denote K = L .actorBody := by
  simp [-add_eq_sup, Phrase.serviceBody, h.inlined .actorBody rfl, h.methodSigs,
    listed]

theorem datatype_eq (h : Listed K L) :
    (Phrase.spelling .datatype).denote K = (RuleName.written .datatype).denote L := by
  simp [-add_eq_sup, Phrase.rules, Phrase.datatype, Phrase.structuralType, Phrase.typeFields,
    h.datatype, h.typeFields, listed, h.funcType_eq h.typeArgs, serviceBody_eq h]
  abel

/-- A field whose type stands alone may be a name, which then is no label. -/
theorem typeField_eq (h : Fits K L) (hdatatype : K .datatype = (Phrase.spelling .datatype).denote K) :
    Phrase.typeField.erase.denote K = L .typeField := by
  rw [h.inlined .typeField rfl]
  simp [-add_eq_sup, Phrase.typeField, h.inlined .fieldLabel rfl, ← h.datatype]
  rw [hdatatype]
  simp [-add_eq_sup, Phrase.rules, Phrase.datatype]
  abel

theorem typeArg_eq (h : Fits K L) (hdatatype : K .datatype = (Phrase.spelling .datatype).denote K) :
    Phrase.typeArg.erase.denote K = L .argType := by
  rw [h.inlined .argType rfl]
  simp [-add_eq_sup, Phrase.typeArg, ← h.datatype]
  rw [hdatatype]
  simp [-add_eq_sup, Phrase.rules, Phrase.datatype]
  abel

/-! ### Expressions -/

theorem argList_eq (h : Listed K L) : Phrase.argList.erase.denote K = L .args := by
  simp [-add_eq_sup, Phrase.argList, h.inlined .args rfl, h.args, listed]

theorem method_eq (h : Fits K L) : Phrase.method.erase.denote K = L .method := by
  simp [-add_eq_sup, Phrase.method, h.inlined .method rfl]

theorem selector_eq (h : Fits K L) : Phrase.selector.erase.denote K = L .selector := by
  simp [-add_eq_sup, Phrase.selector, Phrase.plainArgs, h.inlined .selector rfl,
    h.exp]
  abel

theorem primary_eq (h : Listed K L) :
    (Phrase.spelling .primary).denote K = (RuleName.written .primary).denote L := by
  simp [-add_eq_sup, Phrase.rules, Phrase.plainPrimary, Phrase.behindName, Phrase.keywordPrimary,
    argList_eq h, h.method_eq, h.selector_eq, h.exp, h.unary, h.primary, h.items,
    h.fields, h.field, listed, h.inlined .literal rfl, h.inlined .path rfl, h.inlined .apply rfl,
    h.inlined .callExp rfl, h.inlined .encodeExp rfl, h.inlined .decodeExp rfl,
    h.inlined .failExp rfl, h.inlined .args rfl]
  abel

theorem unary_eq (h : Fits K L) (hprimary : K .primary = (Phrase.spelling .primary).denote K) :
    (Phrase.spelling .unary).denote K = (RuleName.written .unary).denote L := by
  simp [-add_eq_sup, Phrase.rules, Phrase.signedNumber, ← h.primary, hprimary]
  abel

theorem spelling_exp :
    (Phrase.spelling .exp).denote K =
      K .unary * factors K * terms K * ({[.fixed ":"]} * K .datatype + 1) := by
  simp [-add_eq_sup, Phrase.rules, Phrase.behindOperand, Phrase.behindOperand.factors, factors,
    terms]

/-- Reading takes the beginning that the labels of fields have in common with expressions out of
them. -/
theorem field_eq (h : Fits K L) (hexp : K .exp = (Phrase.spelling .exp).denote K)
    (hunary : K .unary = (Phrase.spelling .unary).denote K) :
    (Phrase.spelling .field).denote K = L .field := by
  rw [h.inlined .field rfl]
  simp [-add_eq_sup, Phrase.rules, Phrase.field, Phrase.field.labelled,
    h.inlined .fieldLabel rfl, ← h.exp]
  rw [hexp]
  simp [-add_eq_sup, Phrase.rules, Phrase.plainPrimary, hunary]
  abel

/-! ### Commands and interfaces -/

theorem block_eq (h : Fits K L) : Phrase.block.erase.denote K = L .block := by
  simp [-add_eq_sup, Phrase.block, h.inlined .block rfl, h.commands]

theorem ifCommand_eq (h : Fits K L) :
    (Phrase.spelling .ifCommand).denote K = (RuleName.written .ifCmd).denote L := by
  simp [-add_eq_sup, Phrase.rules, Phrase.placed, Phrase.ifAction, h.block_eq,
    h.exp, h.ifCommand]

theorem command_eq (h : Fits K L)
    (hifCommand : K .ifCommand = (Phrase.spelling .ifCommand).denote K) :
    (Phrase.spelling .command).denote K = (RuleName.written .command).denote L := by
  simp [-add_eq_sup, Phrase.rules, Phrase.command, Phrase.placed, Phrase.functionAction,
    h.block_eq, h.exp, ← h.ifCommand, hifCommand, h.inlined .letCmd rfl,
    h.inlined .showCmd rfl, h.inlined .assertCmd rfl, h.inlined .importCmd rfl,
    h.inlined .configCmd rfl, h.inlined .identityCmd rfl, h.inlined .exportCmd rfl,
    h.inlined .loadCmd rfl, h.inlined .funcCmd rfl, h.inlined .whileCmd rfl]
  abel

theorem definition_eq (h : Fits K L) : Phrase.definition.erase.denote K = L .definition := by
  simp [-add_eq_sup, Phrase.definition, h.inlined .definition rfl, h.datatype]

theorem actor_eq (h : Listed K L) : Phrase.actor.erase.denote K = L .actor := by
  simp [-add_eq_sup, Phrase.actor, h.inlined .actor rfl,
    h.tupleType_eq h.typeArgs, serviceBody_eq h]

/-! ### Recursion -/

section

variable {α : Type} {n : Nonterminal} {p : Ebnf RuleName}

/-- The equation of a list in the rules, whose solution is the list as it is written. -/
theorem lines_iff (mark : String) {more : Phrase (Attempt (List α))} (item : Phrase (Attempt α))
    (hmore : more.erase.denote K = K n) (hitem : item.erase.denote K = p.denote L) :
    K n = (Phrase.separated mark more item).erase.denote K ↔
      K n = (row [repeated (row [p, mark]), optional p]).denote L := by
  have hrule : (Phrase.separated mark more item).erase.denote K =
      p.denote L * ({[.fixed mark]} * K n + 1) + 1 := by
    simp only [Phrase.separated, Rule.erase_orElse, Rule.erase_seq, Rule.erase_map,
      Rule.erase_seqRight, Rule.erase_lit, Rule.erase_pure, Ebnf.denote, hmore, hitem]
  rw [hrule, Syntax.lines_iff (nil_notMem_mul_singleton _ _)]
  simp only [Ebnf.row, Ebnf.optional, Ebnf.denote, mul_one]

theorem list_iff {more : Phrase (Attempt (List α))} (item : Phrase (Attempt α))
    (hmore : more.erase.denote K = K n) (hitem : item.erase.denote K = p.denote L) :
    K n = (Phrase.separated "," more item).erase.denote K ↔
      K n = (optional (row [p, repeated (row [",", p]), optional ","])).denote L := by
  have hrule : (Phrase.separated "," more item).erase.denote K =
      p.denote L * ({[.fixed ","]} * K n + 1) + 1 := by
    simp only [Phrase.separated, Rule.erase_orElse, Rule.erase_seq, Rule.erase_map,
      Rule.erase_seqRight, Rule.erase_lit, Rule.erase_pure, Ebnf.denote, hmore, hitem]
  rw [hrule, Syntax.list_iff (nil_notMem_mul_singleton _ _)]
  simp only [Ebnf.row, Ebnf.optional, Ebnf.denote, mul_one]

end

theorem typeFields_iff (h : Fits K L)
    (hdatatype : K .datatype = (Phrase.spelling .datatype).denote K) :
    K .typeFields = (Phrase.spelling .typeFields).denote K ↔
      K .typeFields = (listed .typeFields).denote L :=
  lines_iff ";" Phrase.typeField rfl (h.typeField_eq hdatatype)

theorem typeArgs_iff (h : Fits K L)
    (hdatatype : K .datatype = (Phrase.spelling .datatype).denote K) :
    K .typeArgs = (Phrase.spelling .typeArgs).denote K ↔
      K .typeArgs = (listed .typeArgs).denote L :=
  list_iff Phrase.typeArg rfl (h.typeArg_eq hdatatype)

theorem methodSigs_iff (h : Fits K L) (hargs : K .typeArgs = (listed .typeArgs).denote L) :
    K .methodSigs = (Phrase.spelling .methodSigs).denote K ↔
      K .methodSigs = (listed .methodSigs).denote L :=
  lines_iff ";" Phrase.methodSig rfl (h.methodSig_eq hargs)

theorem items_iff (h : Fits K L) :
    K .items = (Phrase.spelling .items).denote K ↔ K .items = (listed .items).denote L :=
  lines_iff ";" (Phrase.ref .exp) rfl h.exp

theorem args_iff (h : Fits K L) :
    K .args = (Phrase.spelling .args).denote K ↔ K .args = (listed .args).denote L :=
  list_iff (Phrase.ref .exp) rfl h.exp

theorem fields_iff (hfield : K .field = L .field) :
    K .fields = (Phrase.spelling .fields).denote K ↔ K .fields = (listed .fields).denote L :=
  lines_iff ";" (Phrase.ref .field) rfl hfield

theorem commands_iff (h : Fits K L) :
    K .commands = (Phrase.spelling .commands).denote K ↔
      K .commands = (RuleName.written .commands).denote L := by
  have hrule : (Phrase.spelling .commands).denote K = {[.fixed ";"]} * K .commands +
      (L .command * ({[.fixed ";"]} * K .commands + 1) + 1) := by
    rw [← h.command]
    rfl
  rw [hrule, loose_lines_iff (nil_notMem_mul_singleton _ _)]
  simp only [RuleName.written, Ebnf.row, Ebnf.optional, Ebnf.denote, mul_one]

theorem interface_iff (h : Listed K L) :
    K .interface = (Phrase.spelling .interface).denote K ↔
      K .interface = (RuleName.written .prog).denote L := by
  have hlast : Phrase.lastItem.erase.denote K = L .actor * ({[.fixed ";"]} + 1) + 1 := by
    rw [← actor_eq h]
    rfl
  have hrule : (Phrase.spelling .interface).denote K = L .definition *
      ({[.fixed ";"]} * K .interface + Phrase.lastItem.erase.denote K) +
        Phrase.lastItem.erase.denote K := by
    rw [← h.definition_eq]
    rfl
  rw [hrule, ended_lines_iff (nil_notMem_mul_singleton _ _), hlast]
  simp only [RuleName.written, Ebnf.row, Ebnf.optional, Ebnf.denote, mul_one]

theorem term_iff (h : Fits K L) :
    L .term = (RuleName.written .term).denote L ↔ L .term = K .unary * factors K := by
  have hrule : (RuleName.written .term).denote L =
      L .term * ({[.fixed "*"]} * K .unary + {[.fixed "/"]} * K .unary) + K .unary := by
    simp [-add_eq_sup, h.unary]
  rw [hrule, self_eq_self_mul_add_iff (nil_notMem_add (nil_notMem_singleton_mul _ _)
    (nil_notMem_singleton_mul _ _)), factors]

theorem arith_iff (h : L .term = K .unary * factors K) :
    L .arith = (RuleName.written .arith).denote L ↔
      L .arith = K .unary * factors K * terms K := by
  have hrule : (RuleName.written .arith).denote L = L .arith *
      ({[.fixed "+"]} * (K .unary * factors K) + {[.fixed "-"]} * (K .unary * factors K)) +
        K .unary * factors K := by
    simp [-add_eq_sup, h]
  rw [hrule, self_eq_self_mul_add_iff (nil_notMem_add (nil_notMem_singleton_mul _ _)
    (nil_notMem_singleton_mul _ _)), terms]

theorem exp_eq (h : Fits K L) (harith : L .arith = K .unary * factors K * terms K) :
    (Phrase.spelling .exp).denote K = (RuleName.written .exp).denote L := by
  rw [spelling_exp, ← harith]
  simp [-add_eq_sup, h.datatype]
  abel

end Fits

/-! ## The two grammars -/

/-- The languages of the written symbols, made of those of the nonterminals.  No symbol has more than
`depth` others inlined into its right-hand side. -/
def writtenOf (K : Nonterminal → Language Terminal) : (depth : Nat) → RuleName → Language Terminal
  | _, .datatype => K .datatype
  | _, .exp => K .exp
  | _, .unary => K .unary
  | _, .primary => K .primary
  | _, .commands => K .commands
  | _, .command => K .command
  | _, .ifCmd => K .ifCommand
  | _, .prog => K .interface
  | _, .arith => K .unary * factors K * terms K
  | _, .term => K .unary * factors K
  | 0, _ => 0
  | depth + 1, s => s.written.denote (writtenOf K depth)

/-- The languages of the nonterminals, made of those of the written symbols. -/
def nonterminalsOf (L : RuleName → Language Terminal) : Nonterminal → Language Terminal
  | .datatype => L .datatype
  | .exp => L .exp
  | .unary => L .unary
  | .primary => L .primary
  | .field => L .field
  | .commands => L .commands
  | .command => L .command
  | .ifCommand => L .ifCmd
  | .interface => L .prog
  | list => (listed list).denote L

theorem fits_writtenOf (K : Nonterminal → Language Terminal) : Fits K (writtenOf K 8) where
  inlined s h := by cases s <;> first | rfl | cases h
  datatype := rfl
  exp := rfl
  unary := rfl
  primary := rfl
  commands := rfl
  command := rfl
  ifCommand := rfl

/-- If languages solve the rules, then those made of them solve the written right-hand sides. -/
theorem writtenOf_solves {K : Nonterminal → Language Terminal}
    (hK : ∀ n, K n = (Phrase.spelling n).denote K) (s : RuleName) :
    writtenOf K 8 s = s.written.denote (writtenOf K 8) := by
  have h := fits_writtenOf K
  have hfield : K .field = writtenOf K 8 .field :=
    (hK .field).trans (h.field_eq (hK .exp) (hK .unary))
  have htypeArgs := (h.typeArgs_iff (hK .datatype)).mp (hK .typeArgs)
  have hlisted : Fits.Listed K (writtenOf K 8) := { h with
    typeFields := (h.typeFields_iff (hK .datatype)).mp (hK .typeFields)
    methodSigs := (h.methodSigs_iff htypeArgs).mp (hK .methodSigs)
    items := h.items_iff.mp (hK .items)
    fields := (Fits.fields_iff hfield).mp (hK .fields)
    typeArgs := htypeArgs
    args := h.args_iff.mp (hK .args)
    field := hfield }
  cases s with
  | datatype => exact (hK .datatype).trans (Fits.datatype_eq hlisted)
  | exp => exact (hK .exp).trans (h.exp_eq rfl)
  | arith => exact (Fits.arith_iff rfl).mpr rfl
  | term => exact h.term_iff.mpr rfl
  | unary => exact (hK .unary).trans (h.unary_eq (hK .primary))
  | primary => exact (hK .primary).trans (Fits.primary_eq hlisted)
  | commands => exact h.commands_iff.mp (hK .commands)
  | command => exact (hK .command).trans (h.command_eq (hK .ifCommand))
  | ifCmd => exact (hK .ifCommand).trans h.ifCommand_eq
  | prog => exact (Fits.interface_iff hlisted).mp (hK .interface)
  | _ => exact h.inlined _ rfl

theorem fits_nonterminalsOf {L : RuleName → Language Terminal}
    (hL : ∀ s, L s = s.written.denote L) : Fits.Listed (nonterminalsOf L) L where
  inlined s _ := hL s
  datatype := rfl
  exp := rfl
  unary := rfl
  primary := rfl
  commands := rfl
  command := rfl
  ifCommand := rfl
  typeFields := rfl
  methodSigs := rfl
  items := rfl
  fields := rfl
  typeArgs := rfl
  args := rfl
  field := rfl

/-- If languages solve the written right-hand sides, then those made of them solve the rules. -/
theorem nonterminalsOf_solves {L : RuleName → Language Terminal}
    (hL : ∀ s, L s = s.written.denote L) (n : Nonterminal) :
    nonterminalsOf L n = (Phrase.spelling n).denote (nonterminalsOf L) := by
  have hlisted := fits_nonterminalsOf hL
  have h := hlisted.toFits
  have hdatatype := (hL .datatype).trans (Fits.datatype_eq hlisted).symm
  have hprimary := (hL .primary).trans (Fits.primary_eq hlisted).symm
  have hunary := (hL .unary).trans (h.unary_eq hprimary).symm
  have hterm := h.term_iff.mp (hL .term)
  have hexp := (hL .exp).trans (h.exp_eq ((Fits.arith_iff hterm).mp (hL .arith))).symm
  have hifCommand := (hL .ifCmd).trans h.ifCommand_eq.symm
  cases n with
  | datatype => exact hdatatype
  | typeFields => exact (h.typeFields_iff hdatatype).mpr rfl
  | typeArgs => exact (h.typeArgs_iff hdatatype).mpr rfl
  | methodSigs => exact (h.methodSigs_iff rfl).mpr rfl
  | exp => exact hexp
  | unary => exact hunary
  | primary => exact hprimary
  | args => exact h.args_iff.mpr rfl
  | items => exact h.items_iff.mpr rfl
  | fields => exact (Fits.fields_iff rfl).mpr rfl
  | field => exact (h.field_eq hexp hunary).symm
  | commands => exact h.commands_iff.mpr (hL .commands)
  | command => exact (hL .command).trans (h.command_eq hifCommand).symm
  | ifCommand => exact hifCommand
  | interface => exact (Fits.interface_iff hlisted).mpr (hL .prog)

/-! ## What texts are read as -/

/-- The phrases that texts are read as. -/
inductive Start where
  | commands
  | command
  | exp
  | datatype
  | interface

namespace Start

/-- The grammar that reads a text. -/
def grammar : Start → Grammar Nonterminal Meaning
  | interface => interfaceGrammar
  | _ => scriptGrammar

/-- The nonterminal that a text is read as. -/
def nonterminal : Start → Nonterminal
  | commands => .commands
  | command => .command
  | exp => .exp
  | datatype => .datatype
  | interface => .interface

/-- The symbol from which texts derive in the written grammar. -/
def symbol : Start → RuleName
  | commands => .commands
  | command => .command
  | exp => .exp
  | datatype => .datatype
  | interface => .prog

/-- The sequences of terminals that derive in the written grammar. -/
def language (s : Start) : Language Terminal := Ebnf.language RuleName.written (.rule s.symbol)

/-- The rules have the same sequences. -/
theorem language_spelling (s : Start) :
    Ebnf.language Phrase.spelling (.rule s.nonterminal) = s.language := by
  have hK : ∀ n, Ebnf.language Phrase.spelling (.rule n) = (Phrase.spelling n).denote
      fun n => Ebnf.language Phrase.spelling (.rule n) := fun n => by
    rw [Ebnf.language_rule, Ebnf.language_eq]
  have hL : ∀ s, Ebnf.language RuleName.written (.rule s) = s.written.denote
      fun s => Ebnf.language RuleName.written (.rule s) := fun s => by
    rw [Ebnf.language_rule, Ebnf.language_eq]
  apply le_antisymm
  · refine (Ebnf.language_le (fun n => (nonterminalsOf_solves hL n).ge) _).trans ?_
    cases s <;> exact le_refl _
  · refine (Ebnf.language_le (fun s => (writtenOf_solves hK s).ge) _).trans ?_
    cases s <;> exact le_refl _

end Start

theorem Phrase.sharp {g : Grammar Nonterminal Meaning} (hrules : g.rules = rules)
    (hsize : g.size = scriptGrammar.size) : lookahead.Sharp g := by
  obtain ⟨_, _, lexicon⟩ := g
  obtain rfl := hrules
  obtain rfl := hsize
  have hdecides : lookahead.Decides ⟨rules, scriptGrammar.size, lexicon⟩ :=
    { decides_scriptGrammar with }
  have htakes : ∀ n, lookahead.takesTokens (rules n) = true := by
    intro n
    cases n <;> decide +kernel
  have hproductive : ∀ n, Rule.productiveAt rules 4 n = true := by
    intro n
    cases n <;> decide +kernel
  exact { hdecides with
    takes := htakes
    productive := fun n => Rule.exists_derives_of_productiveAt hdecides htakes (hproductive n) }

namespace Start

theorem sharp (s : Start) : Phrase.lookahead.Sharp s.grammar := by
  cases s <;> exact Phrase.sharp rfl rfl

theorem exists_derives_iff (s : Start) (ks : List Token) :
    (∃ m, Rule.Derives s.grammar.rules (.ref s.nonterminal) ks m) ↔
      ks.map Token.terminal ∈ s.language := by
  rw [Rule.exists_derives_iff s.sharp rfl, ← s.language_spelling]
  cases s <;> exact Iff.rfl

/-- Sequences of terminals with which one that derives begins. -/
def Viable (s : Start) (ts : List Terminal) : Prop := ∃ us, ts ++ us ∈ s.language

theorem begins_iff (s : Start) (ks : List Token) :
    Rule.Begins s.grammar.rules (.ref s.nonterminal) ks ↔ s.Viable (ks.map Token.terminal) := by
  constructor
  · rintro ⟨ls, a, ha⟩
    have hmem := (s.exists_derives_iff _).mp ⟨a, ha⟩
    rw [List.map_append] at hmem
    exact ⟨_, hmem⟩
  · rintro ⟨us, hus⟩
    -- any tokens of these classes will do
    have htokens : (ks ++ us.map fun t => (⟨t, "", default⟩ : Token)).map Token.terminal =
        ks.map Token.terminal ++ us := by simp [Function.comp_def]
    rw [← htokens, ← s.exists_derives_iff] at hus
    obtain ⟨a, ha⟩ := hus
    exact ⟨_, a, ha⟩

/-- Why tokens are refused in front of those that are left. -/
def cause : List Token → ParseCause
  | [] => .unexpectedEnd
  | k :: _ => .unexpectedToken k.lexeme

/-- The place where tokens are refused in front of those that are left. -/
def place (source : List Char) : List Token → Text.Span
  | [] => Text.spanOf source source.length source.length
  | k :: _ => k.span

/-- Just what derives from the written grammar is accepted.  Anything else is refused where no sequence
that derives goes on, and what is expected there are just the terminals with which one does.
(`Grammar.parse_eq`: a text is read as the tokens that it is cut into.) -/
theorem parseTokens_exact (s : Start) (source : List Char) (tokens : List Token) :
    match s.grammar.parseTokens s.nonterminal source ⟨tokens, .complete⟩ with
    | .ok _ => tokens.map Token.terminal ∈ s.language
    | .error e => tokens.map Token.terminal ∉ s.language ∧
        ∃ ks rest expected, tokens = ks ++ rest ∧
          e = ⟨cause rest, some (place source rest), displayAll expected⟩ ∧
          s.Viable (ks.map Token.terminal) ∧
          (∀ k ∈ rest.head?, ¬s.Viable (ks.map Token.terminal ++ [k.terminal])) ∧
          ∀ t, t ∈ expected ↔ s.Viable (ks.map Token.terminal ++ [t]) := by
  have haccepted :
      (∃ m, s.grammar.parseTokens s.nonterminal source ⟨tokens, .complete⟩ = .ok m) ↔
        tokens.map Token.terminal ∈ s.language :=
    (Grammar.parseTokens_ok_iff s.sharp).trans (s.exists_derives_iff tokens)
  cases hresult : s.grammar.parseTokens s.nonterminal source ⟨tokens, .complete⟩ with
  | ok m => exact haccepted.mp ⟨m, hresult⟩
  | error e =>
    refine ⟨fun h => ?_, ?_⟩
    · obtain ⟨m, hm⟩ := haccepted.mpr h
      rw [hresult] at hm
      cases hm
    obtain ⟨ks, htokens, hbegins, hasked, hnext⟩ :=
      Grammar.reading_spec s.sharp s.nonterminal tokens
    have herror := Grammar.parseTokens_error hresult
    generalize (s.grammar.reading s.nonterminal tokens).place = c at htokens hasked hnext herror
    refine ⟨ks, c.rest, c.asked, htokens, ?_, (s.begins_iff ks).mp hbegins, fun k hk => ?_,
      fun t => ?_⟩
    · rw [herror, Tokens.refusal]
      cases c.rest with
      | nil => rfl
      | cons k rest => rfl
    · have hk' := hnext k hk
      rw [s.begins_iff, List.map_append] at hk'
      exact hk'
    · rw [hasked]
      constructor
      · rintro ⟨k, rfl, hk⟩
        simpa using (s.begins_iff _).mp hk
      · intro ht
        exact ⟨⟨t, "", default⟩, rfl, (s.begins_iff _).mpr (by simpa using ht)⟩

end Start

end CanisterShell.Syntax
