import LosslessJava.Grammar.Text
import LosslessJava.Imports
import LosslessJava.Indentation.Shift
import LosslessJava.Resolve.Attribution
import LosslessJava.Tree.Build

/-!
# Edits of units

Single steps that make a new unit of a unit. A step refers to parts of the unit by position, and a
step that refers to a part that is not there fails.

* `UnitEdit.apply`: the unit after a step.
-/

namespace LosslessJava

/-! ## Places of blocks -/

/-- A step from a block or statement to one inside it. -/
inductive PathStep where
  | statement (index : Nat)
  | thenPart
  | elsePart
  | body
deriving DecidableEq

/-- A block in the body of a method of a class that is not nested. -/
structure BlockPlace where
  classIndex : Nat
  memberIndex : Nat
  path : List PathStep
deriving DecidableEq

mutual

/-- The block at the end of a path, and how to put another one in its place. -/
def Block.focus (path : List PathStep) (b : Block) : Option (Block × (Block → Block)) :=
  match path with
  | [] => some (b, id)
  | .statement index :: path =>
    match b.statements[index]? with
    | none => none
    | some s =>
      (Statement.focus path s).map fun (inner, put) =>
        (inner, fun new => b.withStatement index (put new))
  | _ :: _ => none
termination_by (path.length, 0)

/-- The block at the end of a path that starts at a statement. A block is entered without a step. -/
def Statement.focus (path : List PathStep) (s : Statement) :
    Option (Block × (Block → Statement)) :=
  match path, s with
  | path, .block b =>
    (Block.focus path b).map fun (inner, put) => (inner, fun new => .block (put new))
  | .thenPart :: path, .branch lead condition thenPart =>
    (Statement.focus path thenPart).map fun (inner, put) =>
      (inner, fun new => .branch lead condition (put new))
  | .thenPart :: path, .fork lead condition thenPart elseLead elsePart =>
    (Statement.focus path thenPart).map fun (inner, put) =>
      (inner, fun new => .fork lead condition (put new) elseLead elsePart)
  | .elsePart :: path, .fork lead condition thenPart elseLead elsePart =>
    (Statement.focus path elsePart).map fun (inner, put) =>
      (inner, fun new => .fork lead condition thenPart elseLead (put new))
  | .body :: path, .loop lead condition body =>
    (Statement.focus path body).map fun (inner, put) =>
      (inner, fun new => .loop lead condition (put new))
  | _, _ => none
termination_by (path.length, 1)

end

namespace CompilationUnit

/-- Replaces a class by what `f` makes of it. -/
def mapClass? (u : CompilationUnit) (index : Nat)
    (f : ClassDeclaration → Option ClassDeclaration) : Option CompilationUnit := do
  let c ← u.classes[index]?
  let c ← f c
  return { u with classes := u.classes.set index c }

/-- Replaces a member of a class by what `f` makes of it. -/
def mapMember? (u : CompilationUnit) (classIndex memberIndex : Nat)
    (f : Member → Option Member) : Option CompilationUnit :=
  u.mapClass? classIndex fun c => do
    let m ← c.members[memberIndex]?
    let m ← f m
    return c.withMembers (c.members.set memberIndex m)

/-- The block at a place, and how to put another one there. -/
def focus (u : CompilationUnit) (place : BlockPlace) :
    Option (Block × (Block → CompilationUnit)) := do
  let c ← u.classes[place.classIndex]?
  let m ← c.members[place.memberIndex]?
  let m ← m.method?
  let body ← m.body?
  let (inner, put) ← body.focus place.path
  return (inner, fun new =>
    { u with
      classes := u.classes.set place.classIndex
        (c.withMembers (c.members.set place.memberIndex (.method (m.withBody (put new))))) })

/-- The block at a place. -/
def blockAt? (u : CompilationUnit) (place : BlockPlace) : Option Block :=
  (u.focus place).map Prod.fst

end CompilationUnit

/-! ## Steps -/

/-- How far a statement is shifted. -/
inductive ShiftBy where
  /-- As if it moved into the block from the block that it is in. -/
  | into (place : BlockPlace)
  | shift (shift : Shift)
deriving DecidableEq

inductive UnitEdit where
  | sortImports
  /-- Adds an import at an index, at the end without one. -/
  | addImport (name : String) (isStatic wildcard : Bool) (lead : Trivia) (index : Option Nat)
  | removeImport (index : Nat)
  | renameImport (index : Nat) (name : String)
  | setImportLead (index : Nat) (lead : Trivia)
  | setPackage (name : Option String)
  | setPath (path : Option String)
  | dropClass (index : Nat)
  | setClassLead (index : Nat) (lead : Trivia)
  | dropMember (classIndex memberIndex : Nat)
  /-- Takes a member out and puts it at an index, at the end without one. -/
  | moveMember (classIndex memberIndex : Nat) (index : Option Nat)
  | setMemberLead (classIndex memberIndex : Nat) (lead : Trivia)
  | setBody (classIndex memberIndex : Nat) (statements : Option (List String))
  | insertStatement (place : BlockPlace) (source : String) (index : Option Nat)
  | replaceStatement (place : BlockPlace) (index : Nat) (source : String) (keepLead : Bool)
  | setReturned (place : BlockPlace) (index : Nat) (source : Option String)
  | shiftStatement (place : BlockPlace) (index : Nat) (amount : ShiftBy)
  | attribution (dependencies : List String) (implicitLanguage : Bool)

/-- Why a step fails. -/
inductive EditFault where
  /-- The unit has no such part. -/
  | noSuchPart
  | badName (error : NameError)
  | badText (error : ParseError)
deriving DecidableEq

/-- Puts an element at an index, at the end without one or with one that is too large. -/
def insertAt {α : Type} (a : α) (index : Option Nat) (as : List α) : List α :=
  let index := min (index.getD as.length) as.length
  as.take index ++ a :: as.drop index

namespace EditFault

/-- The value, or the fault that there is no such part. -/
def ofOption {α : Type} : Option α → Except EditFault α
  | some a => .ok a
  | none => .error .noSuchPart

def ofName {α : Type} : Except NameError α → Except EditFault α
  | .ok a => .ok a
  | .error e => .error (.badName e)

def ofParse {α : Type} : Except ParseError α → Except EditFault α
  | .ok a => .ok a
  | .error e => .error (.badText e)

end EditFault

namespace UnitEdit

open EditFault

/-- The texts as statements, or the first error. -/
def parseStatements (sources : List String) : Except EditFault (List Statement) :=
  sources.mapM fun source => ofParse (parseStatement source)

/-- The statement at an index. -/
def statementAt (b : Block) (index : Nat) : Except EditFault Statement :=
  ofOption b.statements[index]?

/-- The unit with one import changed. -/
def mapImport (u : CompilationUnit) (index : Nat) (f : Import → Import) :
    Except EditFault CompilationUnit := do
  let i ← ofOption u.imports[index]?
  return { u with imports := u.imports.set index (f i) }

/-- The unit after a step. -/
def apply (u : CompilationUnit) : UnitEdit → Except EditFault CompilationUnit
  | sortImports => .ok u.sortImports
  | addImport name isStatic wildcard lead index => do
    let name ← ofName (QualifiedName.parse name)
    let i := (Import.build name isStatic wildcard).withLead lead
    return { u with imports := insertAt i index u.imports }
  | removeImport index => do
    let _ ← ofOption u.imports[index]?
    return { u with imports := u.imports.eraseIdx index }
  | renameImport index name => do
    let _ ← ofOption u.imports[index]?
    let name ← ofName (QualifiedName.parse name)
    mapImport u index fun i => { i with name }
  | setImportLead index lead => mapImport u index (Import.withLead lead)
  | setPackage none => .ok { u with package := none }
  | setPackage (some name) => do
    let name ← ofName (QualifiedName.parse name)
    return { u with package := some (.build name) }
  | setPath path => .ok { u with path }
  | dropClass index => do
    let _ ← ofOption u.classes[index]?
    return { u with classes := u.classes.eraseIdx index }
  | setClassLead index lead => ofOption (u.mapClass? index fun c => some (c.withLead lead))
  | dropMember classIndex memberIndex =>
    ofOption (u.mapClass? classIndex fun c =>
      c.members[memberIndex]?.map fun _ => c.withMembers (c.members.eraseIdx memberIndex))
  | moveMember classIndex memberIndex index =>
    ofOption (u.mapClass? classIndex fun c =>
      c.members[memberIndex]?.map fun m =>
        c.withMembers (insertAt m index (c.members.eraseIdx memberIndex)))
  | setMemberLead classIndex memberIndex lead =>
    ofOption (u.mapMember? classIndex memberIndex fun m => some (m.withLead lead))
  | setBody classIndex memberIndex sources => do
    let _ ← ofOption ((u.classes[classIndex]?.bind (·.members[memberIndex]?)).bind Member.method?)
    let body ← sources.mapM fun sources => Block.build <$> parseStatements sources
    ofOption (u.mapMember? classIndex memberIndex fun m =>
      m.method?.map fun m => .method (m.withBody body))
  | insertStatement place source index => do
    let (block, put) ← ofOption (u.focus place)
    let statement ← ofParse (parseStatement source)
    let statement := statement.withLead (u.leadIn block)
    return put { block with statements := insertAt statement index block.statements }
  | replaceStatement place index source keepLead => do
    let statement ← ofParse (parseStatement source)
    let (block, put) ← ofOption (u.focus place)
    match block.statements[index]? with
    | none => return u
    | some old =>
      let statement := if keepLead then statement.withLead old.lead else statement
      return put (block.withStatement index statement)
  | setReturned place index source => do
    let value ← source.mapM fun source => ofParse (parseExpression source)
    let (block, put) ← ofOption (u.focus place)
    match ← statementAt block index with
    | .ret r => return put (block.withStatement index (.ret (r.withValue value)))
    | _ => .error .noSuchPart
  | shiftStatement place index amount => do
    let (block, put) ← ofOption (u.focus place)
    let statement ← statementAt block index
    let shift ←
      match amount with
      | .shift shift => pure shift
      | .into place => do
        let into ← ofOption (u.blockAt? place)
        pure (u.shiftBetween into block)
    return put (block.withStatement index (shift.applyTo statement))
  | attribution dependencies implicitLanguage => do
    let units ← dependencies.mapM fun source => ofParse (parseUnit none source)
    return u.attributed (.ofUnits (u :: units)) implicitLanguage

end UnitEdit

end LosslessJava
