import Offside.Proofs.Deeds
import Offside.Proofs.Writing.Head

set_option autoImplicit false

namespace Offside

inductive Origin where
  | operand
  | operation
  | condition
  | declaration
  | invocation
deriving DecidableEq, Repr

namespace Origin

-- The commands that can fail so. Operations are found where a whole expression may stand.
def raisers : Origin → List Keyword
  | .operand => [.log, .read, .assign, .declare, .branch, .loop, .call, .give]
  | .operation => [.log, .assign, .declare, .branch, .loop, .give]
  | .condition => [.branch, .loop]
  | .declaration => [.declare, .call]
  | .invocation => [.call]

theorem define_never_raises (origin : Origin) : Keyword.define ∉ origin.raisers := by cases origin <;> decide

end Origin

namespace Fault

def origin : Fault → Origin
  | .notDeclared _ | .indexNotInteger | .indexOutOfRange _ => .operand
  | .unsupported _ _ _ | .divisionByZero | .characterOutOfRange _ _ => .operation
  | .conditionNotBoolean => .condition
  | .alreadyDeclared _ => .declaration
  | .undefinedProgram _ | .argumentCount _ _ _ => .invocation

def raisers (fault : Fault) : List Keyword := fault.origin.raisers

def Computed (fault : Fault) : Prop := fault.origin = .operand ∨ fault.origin = .operation

theorem computed_raised (fault : Fault) (keyword : Keyword) (computed : fault.Computed)
    (either : keyword ∈ Origin.operation.raisers) : keyword ∈ fault.raisers := by
  rw [raisers]
  rcases computed with operand | operation
  · rw [operand]
    revert keyword
    decide
  · rw [operation]
    exact either

theorem operand_raised (fault : Fault) (keyword : Keyword) (operand : fault.origin = .operand)
    (other : keyword ≠ .define) : keyword ∈ fault.raisers := by
  rw [raisers, operand]
  cases keyword with
  | define => exact absurd rfl other
  | _ => decide

theorem of_map {Source Result : Type} (change : Source → Result) (read : Except Fault Source) (fault : Fault)
    (failed : read.map change = .error fault) : read = .error fault := by
  cases read with
  | ok source => cases failed
  | error cause =>
      cases failed
      rfl

end Fault

namespace Memory

theorem address_operand (index : Value) (fault : Fault) (failed : address index = .error fault) :
    fault.origin = .operand := by
  cases index with
  | text value =>
      cases failed
      rfl
  | boolean value =>
      cases failed
      rfl
  | integer value =>
      rw [address] at failed
      split at failed
      · cases failed
      · cases failed
        rfl

theorem read_operand (memory : Memory) (index : Value) (fault : Fault) (failed : memory.read index = .error fault) :
    fault.origin = .operand :=
  address_operand index fault (fault.of_map memory.fetch (address index) failed)

end Memory

namespace Value

theorem character_operation (text : String) (index : Int64) (fault : Fault) (failed : characterAt text index = .error fault) :
    fault.origin = .operation := by
  rw [characterAt] at failed
  split at failed
  · cases failed
  · cases failed
    rfl

theorem operate_operation (left : Value) (operator : Operator) (right : Value) (fault : Fault)
    (failed : left.operate operator right = .error fault) : fault.origin = .operation := by
  unfold operate at failed
  split at failed
  case h_5 text index => exact character_operation text index fault failed
  case h_9 =>
    split at failed
    · cases failed
      rfl
    · cases failed
  case h_10 =>
    split at failed
    · cases failed
      rfl
    · cases failed
  all_goals first | (cases failed; rfl) | cases failed

end Value

namespace Scope

theorem lookup_operand (scope : Scope) (name : String) (fault : Fault) (failed : scope.lookup name = .error fault) :
    fault.origin = .operand := by
  rw [lookup_find] at failed
  split at failed
  · cases failed
  · cases failed
    rfl

theorem declare_declaration (scope : Scope) (name : String) (value : Value) (fault : Fault)
    (failed : scope.declare name value = .error fault) : fault.origin = .declaration := by
  rw [declare_insert] at failed
  split at failed
  · cases failed
    rfl
  · cases failed

end Scope

namespace Expr

theorem evaluate_computed (scope : Scope) (memory : Memory) (expr : Expr) (fault : Fault)
    (failed : expr.evaluate scope memory = .error fault) : fault.Computed := by
  induction expr generalizing fault with
  | text value => cases failed
  | integer value => cases failed
  | boolean value => cases failed
  | var name => exact .inl (scope.lookup_operand name fault failed)
  | cell index ih =>
      rw [evaluate] at failed
      split at failed
      · next address _ => exact .inl (memory.read_operand address fault failed)
      · next inner missed =>
          cases failed
          exact ih fault missed
  | binary left operator right before after =>
      rw [evaluate] at failed
      split at failed
      · next first _ =>
          split at failed
          · next second _ => exact .inr (first.operate_operation operator second fault failed)
          · next inner missed =>
              cases failed
              exact after fault missed
      · next inner missed =>
          cases failed
          exact before fault missed

theorem evaluate_operand (scope : Scope) (memory : Memory) (expr : Expr) (fault : Fault) (value : expr.isValue = true)
    (failed : expr.evaluate scope memory = .error fault) : fault.origin = .operand := by
  induction expr generalizing fault with
  | text value => cases failed
  | integer value => cases failed
  | boolean value => cases failed
  | var name => exact scope.lookup_operand name fault failed
  | cell index ih =>
      rw [evaluate] at failed
      split at failed
      · next address _ => exact memory.read_operand address fault failed
      · next inner missed =>
          cases failed
          exact ih fault value missed
  | binary left operator right _ _ => cases value

theorem condition_raised (scope : Scope) (memory : Memory) (expr : Expr) (fault : Fault)
    (failed : expr.condition scope memory = .error fault) : fault.Computed ∨ fault.origin = .condition := by
  rw [condition] at failed
  split at failed
  · cases failed
  · cases failed
    exact .inr rfl
  · next inner missed =>
      cases failed
      exact .inl (expr.evaluate_computed scope memory fault missed)

end Expr

namespace Target

theorem locate_operand (scope : Scope) (memory : Memory) (target : Target) (fault : Fault)
    (value : target.expr.isValue = true) (failed : target.locate scope memory = .error fault) :
    fault.origin = .operand := by
  cases target with
  | var name =>
      rw [locate] at failed
      split at failed
      · cases failed
      · cases failed
        rfl
  | cell index =>
      rw [locate] at failed
      split at failed
      · next address _ => exact Memory.address_operand address fault (fault.of_map Place.cell (Memory.address address) failed)
      · next inner missed =>
          cases failed
          exact index.evaluate_operand scope memory fault value missed

theorem of_symbol_value (symbol : Symbol) (target : Target) (read : ofSymbol symbol = .ok target) :
    target.expr.isValue = true := by
  cases symbol with
  | var name =>
      cases read
      rfl
  | cell index =>
      rw [ofSymbol] at read
      obtain ⟨inner, found, rfl⟩ := Head.map_ok _ _ _ read
      exact Expr.of_symbol_value index inner found
  | _ => cases read

end Target

namespace Head

-- Targets and arguments are single operands, as they are in everything that is read.
def IsPlain : Head → Prop
  | .read target => target.expr.isValue = true
  | .assign target _ => target.expr.isValue = true
  | .call _ arguments _ => ∀ argument ∈ arguments, argument.isValue = true
  | .log _ | .declare _ _ | .branch _ | .loop _ | .define _ _ | .give _ => True

theorem each_read {Result : Type} (read : Symbol → Except ShapeError Result) (symbols : List Symbol) (results : List Result)
    (whole : symbols.mapM read = .ok results) : ∀ result ∈ results, ∃ symbol, read symbol = .ok result := by
  induction symbols generalizing results with
  | nil =>
      cases whole
      exact List.forall_mem_nil _
  | cons first more ih =>
      rw [List.mapM_cons] at whole
      cases here : read first with
      | error cause =>
          rw [here] at whole
          cases whole
      | ok result =>
          cases there : more.mapM read with
          | error cause =>
              rw [here, there] at whole
              cases whole
          | ok others =>
              rw [here, there] at whole
              cases whole
              exact List.forall_mem_cons.mpr ⟨⟨first, here⟩, ih others there⟩

theorem call_plain (capture : Option String) (symbols : List Symbol) (head : Head) (read : callOf capture symbols = .ok head) :
    head.IsPlain := by
  unfold callOf at read
  split at read
  · next name rest =>
      obtain ⟨arguments, each, rfl⟩ := map_ok _ _ _ read
      intro argument member
      obtain ⟨symbol, single⟩ := each_read _ rest arguments each argument member
      exact Expr.of_symbol_value symbol argument single
  · cases read

theorem read_plain (symbols : List Symbol) (head : Head) (read : readOf symbols = .ok head) : head.IsPlain := by
  unfold readOf at read
  split at read
  · cases read
  · next symbol =>
      obtain ⟨target, found, rfl⟩ := map_ok _ _ _ read
      exact Target.of_symbol_value symbol target found
  · next symbol second rest =>
      cases found : Target.ofSymbol symbol with
      | error cause =>
          rw [found] at read
          cases read
      | ok target =>
          rw [found] at read
          cases read

theorem assign_plain (symbols : List Symbol) (head : Head) (read : assignOf symbols = .ok head) : head.IsPlain := by
  cases symbols with
  | nil => cases read
  | cons symbol rest =>
      rw [assignOf] at read
      cases found : Target.ofSymbol symbol with
      | error cause =>
          rw [found] at read
          cases read
      | ok target =>
          cases computed : Expr.ofSymbols rest with
          | error cause =>
              rw [found, computed] at read
              cases read
          | ok value =>
              rw [found, computed] at read
              cases read
              exact Target.of_symbol_value symbol target found

theorem mapped_plain {Source : Type} (make : Source → Head) (read : Except ShapeError Source) (head : Head)
    (mapped : read.map make = .ok head) (free : ∀ source, (make source).IsPlain) : head.IsPlain := by
  obtain ⟨source, _, rfl⟩ := map_ok make read head mapped
  exact free source

theorem of_symbols_plain (symbols : List Symbol) (head : Head) (read : ofSymbols symbols = .ok head) : head.IsPlain := by
  unfold ofSymbols at read
  split at read
  · exact mapped_plain _ _ head read fun _ => trivial
  · next rest => exact read_plain rest head read
  · next rest => exact assign_plain rest head read
  · unfold declareOf at read
    split at read
    · exact mapped_plain _ _ head read fun _ => trivial
    · cases read
  · exact mapped_plain _ _ head read fun _ => trivial
  · exact mapped_plain _ _ head read fun _ => trivial
  · unfold defineOf at read
    split at read
    · exact mapped_plain _ _ head read fun _ => trivial
    · cases read
  · next capture rest => exact call_plain (some capture) rest head read
  · next rest _ => exact call_plain none rest head read
  · unfold giveOf at read
    split at read
    · cases read
      trivial
    · exact mapped_plain _ _ head read fun _ => trivial
  · cases read

end Head

namespace Machine

theorem bind_params_origin (caller : Scope) (memory : Memory) (params : List String) (arguments : List Expr) (callee : Scope)
    (fault : Fault) (values : ∀ argument ∈ arguments, argument.isValue = true)
    (failed : bindParams caller memory params arguments callee = .error fault) :
    fault.origin = .operand ∨ fault.origin = .declaration := by
  induction params generalizing arguments callee with
  | nil => cases failed
  | cons param params ih =>
      cases arguments with
      | nil => cases failed
      | cons argument arguments =>
          obtain ⟨value, others⟩ := List.forall_mem_cons.mp values
          rw [bindParams] at failed
          split at failed
          · next result _ =>
              split at failed
              · next bound _ => exact ih arguments bound others failed
              · next inner declared =>
                  cases failed
                  exact .inr (callee.declare_declaration param result fault declared)
          · next inner missed =>
              cases failed
              exact .inl (argument.evaluate_operand caller memory fault value missed)

end Machine

namespace Deed

theorem of_result_fail {Result : Type} (deed : Result → Deed) (result : Except Fault Result) (fault : Fault)
    (failed : ofResult deed result = .fail fault) :
    result = .error fault ∨ ∃ value, result = .ok value ∧ deed value = .fail fault := by
  cases result with
  | error cause =>
      cases failed
      exact .inl rfl
  | ok value => exact .inr ⟨value, rfl, failed⟩

theorem call_raised (scope : Scope) (memory : Memory) (name : String) (arguments : List Expr) (capture : Option String)
    (found : Option Program) (fault : Fault) (values : ∀ argument ∈ arguments, argument.isValue = true)
    (failed : ofCall scope memory name arguments capture found = .fail fault) : .call ∈ fault.raisers := by
  cases found with
  | none =>
      cases failed
      exact List.mem_singleton_self _
  | some program =>
      rw [ofCall] at failed
      split at failed
      · rcases of_result_fail _ _ fault failed with missed | ⟨callee, _, other⟩
        · rcases Machine.bind_params_origin scope memory _ arguments _ fault values missed with operand | declaration
          · exact fault.operand_raised .call operand nofun
          · rw [Fault.raisers, declaration]
            decide
        · cases other
      · cases failed
        exact List.mem_singleton_self _

theorem condition_raised (scope : Scope) (world : World) (again : Bool) (condition : Expr) (keyword : Keyword) (fault : Fault)
    (either : keyword ∈ Origin.condition.raisers)
    (failed : ofResult (ofCondition again) (condition.condition scope world.memory) = .fail fault) :
    keyword ∈ fault.raisers := by
  rcases of_result_fail _ _ fault failed with missed | ⟨holds, _, other⟩
  · rcases condition.condition_raised scope world.memory fault missed with computed | condition
    · refine fault.computed_raised keyword computed ?_
      revert keyword
      decide
    · rwa [Fault.raisers, condition]
  · cases holds <;> cases other

theorem fail_raised (scope : Scope) (world : World) (head : Head) (fault : Fault) (plain : head.IsPlain)
    (failed : ofHead scope world head = .fail fault) : head.keyword ∈ fault.raisers := by
  cases head with
  | log value =>
      rcases of_result_fail _ _ fault failed with missed | ⟨result, _, other⟩
      · exact fault.computed_raised .log (value.evaluate_computed scope world.memory fault missed) (by decide)
      · cases other
  | read target =>
      rw [ofHead] at failed
      cases answer : world.device.read.1 with
      | error cause =>
          rw [answer] at failed
          cases failed
      | ok c =>
          rw [answer] at failed
          rcases of_result_fail _ _ fault failed with missed | ⟨place, _, other⟩
          · exact fault.operand_raised .read (target.locate_operand scope world.memory fault plain missed) nofun
          · cases other
  | assign target value =>
      rcases of_result_fail _ _ fault failed with missed | ⟨result, _, other⟩
      · exact fault.computed_raised .assign (value.evaluate_computed scope world.memory fault missed) (by decide)
      · rcases of_result_fail _ _ fault other with missed | ⟨place, _, further⟩
        · exact fault.operand_raised .assign (target.locate_operand scope world.memory fault plain missed) nofun
        · cases further
  | declare name value =>
      rcases of_result_fail _ _ fault failed with missed | ⟨result, _, other⟩
      · exact fault.computed_raised .declare (value.evaluate_computed scope world.memory fault missed) (by decide)
      · rw [ofDeclaration] at other
        split at other
        · cases other
          exact List.mem_cons_self
        · cases other
  | branch condition => exact condition_raised scope world false condition .branch fault (by decide) failed
  | loop condition => exact condition_raised scope world true condition .loop fault (by decide) failed
  | define name params => cases failed
  | call name arguments capture => exact call_raised scope world.memory name arguments capture _ fault plain failed
  | give value =>
      cases value with
      | none => cases failed
      | some value =>
          rcases of_result_fail _ _ fault failed with missed | ⟨result, _, other⟩
          · exact fault.computed_raised .give (value.evaluate_computed scope world.memory fault missed) (by decide)
          · cases other

end Deed

end Offside
