import Offside.Command.Head
import Offside.Proofs.Writing.Expr

set_option autoImplicit false

namespace Offside.Head

def operands : Head → List Symbol
  | .log value => value.symbols
  | .read target => target.expr.symbols
  | .assign target value => target.expr.symbols ++ value.symbols
  | .declare name value => .var name :: value.symbols
  | .branch condition => condition.symbols
  | .loop condition => condition.symbols
  | .define name params => .program name :: params.map .var
  | .call name arguments capture => capture.toList.map .var ++ .program name :: arguments.flatMap Expr.symbols
  | .give value => value.toList.flatMap Expr.symbols

def symbols (head : Head) : List Symbol := .keyword head.keyword :: head.operands

def isWritable : Head → Bool
  | .log value | .branch value | .loop value => value.isWritable
  | .read target => target.expr.isWritable
  | .assign target value => target.expr.isWritable && value.isWritable
  | .declare name value => name.toList.all isOrdinary && value.isWritable
  | .define name params => name.toList.all isOrdinary && params.all fun param => param.toList.all isOrdinary
  | .call name arguments capture =>
      name.toList.all isOrdinary && capture.all (fun capture => capture.toList.all isOrdinary) &&
        arguments.all fun argument => argument.isValue && argument.isWritable
  | .give value => value.all Expr.isWritable

theorem params_read (params : List String) : (params.map Symbol.var).mapM param = .ok params := by
  induction params with
  | nil => rfl
  | cons first more ih =>
      rw [List.map_cons, List.mapM_cons, ih]
      rfl

theorem arguments_read (arguments : List Expr) (values : ∀ argument ∈ arguments, argument.isValue = true) :
    (arguments.flatMap Expr.symbols).mapM Expr.ofSymbol = .ok arguments := by
  induction arguments with
  | nil => rfl
  | cons first more ih =>
      obtain ⟨value, others⟩ := List.forall_mem_cons.mp values
      obtain ⟨symbol, single, read⟩ := Expr.symbols_value first value
      rw [List.flatMap_cons, single, List.singleton_append, List.mapM_cons, read, ih others]
      rfl

theorem call_of_operands (name : String) (arguments : List Expr) (capture : Option String)
    (values : ∀ argument ∈ arguments, argument.isValue = true) :
    callOf capture (.program name :: arguments.flatMap Expr.symbols) = .ok (.call name arguments capture) := by
  rw [callOf, arguments_read arguments values]
  rfl

theorem of_symbols_symbols (head : Head) (writable : head.isWritable = true) : ofSymbols head.symbols = .ok head := by
  cases head with
  | log value =>
      change (Expr.ofSymbols value.symbols).map Head.log = _
      rw [Expr.of_symbols_symbols value writable]
      rfl
  | read target =>
      obtain ⟨symbol, single, read⟩ := Target.of_symbol_target target writable
      change readOf target.expr.symbols = _
      rw [single, readOf, read]
      rfl
  | assign target value =>
      obtain ⟨targetWritable, valueWritable⟩ := Bool.and_eq_true_iff.mp writable
      obtain ⟨symbol, single, read⟩ := Target.of_symbol_target target targetWritable
      change assignOf (target.expr.symbols ++ value.symbols) = _
      rw [single, List.singleton_append, assignOf, read, Expr.of_symbols_symbols value valueWritable]
      rfl
  | declare name value =>
      obtain ⟨_, valueWritable⟩ := Bool.and_eq_true_iff.mp writable
      change (Expr.ofSymbols value.symbols).map (Head.declare name) = _
      rw [Expr.of_symbols_symbols value valueWritable]
      rfl
  | branch condition =>
      change (Expr.ofSymbols condition.symbols).map Head.branch = _
      rw [Expr.of_symbols_symbols condition writable]
      rfl
  | loop condition =>
      change (Expr.ofSymbols condition.symbols).map Head.loop = _
      rw [Expr.of_symbols_symbols condition writable]
      rfl
  | define name params =>
      change ((params.map Symbol.var).mapM param).map (Head.define name) = _
      rw [params_read]
      rfl
  | call name arguments capture =>
      obtain ⟨_, allWritable⟩ := Bool.and_eq_true_iff.mp writable
      have values : ∀ argument ∈ arguments, argument.isValue = true := by
        intro argument member
        exact (Bool.and_eq_true_iff.mp (List.all_eq_true.mp allWritable argument member)).1
      cases capture with
      | none => exact call_of_operands name arguments none values
      | some capture => exact call_of_operands name arguments (some capture) values
  | give value =>
      cases value with
      | none => rfl
      | some value =>
          change giveOf ([value].flatMap Expr.symbols) = _
          rw [List.flatMap_singleton, giveOf, if_neg (Expr.symbols_nonempty value), Expr.of_symbols_symbols value writable]
          rfl

theorem operands_writable (head : Head) (writable : head.isWritable = true) :
    ∀ symbol ∈ head.operands, symbol.isWritable = true := by
  cases head with
  | log value => exact Expr.symbols_writable value writable
  | read target => exact Expr.symbols_writable target.expr writable
  | assign target value =>
      obtain ⟨targetWritable, valueWritable⟩ := Bool.and_eq_true_iff.mp writable
      exact List.forall_mem_append.mpr ⟨Expr.symbols_writable _ targetWritable, Expr.symbols_writable _ valueWritable⟩
  | declare name value =>
      obtain ⟨nameWritable, valueWritable⟩ := Bool.and_eq_true_iff.mp writable
      exact List.forall_mem_cons.mpr ⟨nameWritable, Expr.symbols_writable _ valueWritable⟩
  | branch condition => exact Expr.symbols_writable condition writable
  | loop condition => exact Expr.symbols_writable condition writable
  | define name params =>
      obtain ⟨nameWritable, paramsWritable⟩ := Bool.and_eq_true_iff.mp writable
      exact List.forall_mem_cons.mpr ⟨nameWritable, List.forall_mem_map.mpr (List.all_eq_true.mp paramsWritable)⟩
  | call name arguments capture =>
      simp only [isWritable, Bool.and_eq_true, List.all_eq_true] at writable
      obtain ⟨⟨nameWritable, captureWritable⟩, argumentsWritable⟩ := writable
      refine List.forall_mem_append.mpr ⟨List.forall_mem_map.mpr ?_, List.forall_mem_cons.mpr ⟨?_, ?_⟩⟩
      · intro name member
        rw [Option.mem_toList] at member
        subst member
        simpa [Symbol.isWritable] using captureWritable
      · simpa [Symbol.isWritable] using nameWritable
      · intro symbol member
        obtain ⟨argument, present, inside⟩ := List.mem_flatMap.mp member
        exact Expr.symbols_writable argument (argumentsWritable argument present).2 symbol inside
  | give value =>
      cases value with
      | none => exact List.forall_mem_nil _
      | some value =>
          change ∀ symbol ∈ [value].flatMap Expr.symbols, symbol.isWritable = true
          rw [List.flatMap_singleton]
          exact Expr.symbols_writable value writable

theorem map_ok {Cause Source Result : Type} (change : Source → Result) (read : Except Cause Source) (result : Result)
    (mapped : read.map change = .ok result) : ∃ source, read = .ok source ∧ result = change source := by
  cases read with
  | error cause => cases mapped
  | ok source =>
      cases mapped
      exact ⟨source, rfl, rfl⟩

theorem each_written {Result : Type} (read : Symbol → Except ShapeError Result) (write : Result → List Symbol)
    (back : ∀ symbol result, read symbol = .ok result → write result = [symbol]) (written : List Symbol)
    (results : List Result) (whole : written.mapM read = .ok results) : results.flatMap write = written := by
  induction written generalizing results with
  | nil =>
      cases whole
      rfl
  | cons first more ih =>
      rw [List.mapM_cons] at whole
      cases here : read first with
      | error cause =>
          rw [here] at whole
          cases whole
      | ok result =>
          cases there : more.mapM read with
          | error cause =>
              rw [here, there] at whole
              cases whole
          | ok others =>
              rw [here, there] at whole
              cases whole
              rw [List.flatMap_cons, back first result here, ih others there]
              rfl

theorem param_written (symbol : Symbol) (name : String) (read : param symbol = .ok name) : [.var name] = [symbol] := by
  cases symbol with
  | var given =>
      cases read
      rfl
  | _ => cases read

theorem call_written (capture : Option String) (written : List Symbol) (head : Head)
    (read : callOf capture written = .ok head) :
    ∃ name arguments, head = .call name arguments capture ∧ written = .program name :: arguments.flatMap Expr.symbols := by
  unfold callOf at read
  split at read
  · next name rest =>
      obtain ⟨arguments, each, rfl⟩ := map_ok _ _ _ read
      exact ⟨name, arguments, rfl, by rw [each_written _ _ Expr.symbols_of_symbol rest arguments each]⟩
  · cases read

theorem operand_written (keyword : Keyword) (make : Expr → Head) (written : List Symbol) (head : Head)
    (keywordSame : ∀ value, (make value).keyword = keyword) (operandsSame : ∀ value, (make value).operands = value.symbols)
    (read : (Expr.ofSymbols written).map make = .ok head) : head.symbols = .keyword keyword :: written := by
  obtain ⟨value, found, rfl⟩ := map_ok _ _ _ read
  rw [symbols, keywordSame, operandsSame, Expr.symbols_of_symbols written value found]

theorem read_written (written : List Symbol) (head : Head) (read : readOf written = .ok head) :
    head.symbols = .keyword .read :: written := by
  unfold readOf at read
  split at read
  · cases read
  · next symbol =>
      obtain ⟨target, found, rfl⟩ := map_ok _ _ _ read
      exact congrArg _ (Target.symbols_of_symbol symbol target found)
  · next symbol _ _ =>
      cases found : Target.ofSymbol symbol with
      | error cause =>
          rw [found] at read
          cases read
      | ok target =>
          rw [found] at read
          cases read

theorem assign_written (written : List Symbol) (head : Head) (read : assignOf written = .ok head) :
    head.symbols = .keyword .assign :: written := by
  cases written with
  | nil => cases read
  | cons symbol rest =>
      rw [assignOf] at read
      cases found : Target.ofSymbol symbol with
      | error cause =>
          rw [found] at read
          cases read
      | ok target =>
          cases valued : Expr.ofSymbols rest with
          | error cause =>
              rw [found, valued] at read
              cases read
          | ok value =>
              rw [found, valued] at read
              cases read
              rw [symbols, operands, Target.symbols_of_symbol symbol target found,
                Expr.symbols_of_symbols rest value valued]
              rfl

theorem declare_written (written : List Symbol) (head : Head) (read : declareOf written = .ok head) :
    head.symbols = .keyword .declare :: written := by
  unfold declareOf at read
  split at read
  · next name rest =>
      obtain ⟨value, found, rfl⟩ := map_ok _ _ _ read
      rw [symbols, operands, Expr.symbols_of_symbols rest value found]
      rfl
  · cases read

theorem define_written (written : List Symbol) (head : Head) (read : defineOf written = .ok head) :
    head.symbols = .keyword .define :: written := by
  unfold defineOf at read
  split at read
  · next name rest =>
      obtain ⟨params, each, rfl⟩ := map_ok _ _ _ read
      rw [symbols, operands, List.map_eq_flatMap, each_written param (fun name => [.var name]) param_written rest params each]
      rfl
  · cases read

theorem give_written (written : List Symbol) (head : Head) (read : giveOf written = .ok head) :
    head.symbols = .keyword .give :: written := by
  unfold giveOf at read
  split at read
  · next empty =>
      cases read
      rw [empty]
      rfl
  · obtain ⟨value, found, rfl⟩ := map_ok _ _ _ read
    rw [symbols, operands, Option.toList_some, List.flatMap_singleton, Expr.symbols_of_symbols written value found]
    rfl

theorem symbols_of_symbols (written : List Symbol) (head : Head) (read : ofSymbols written = .ok head) :
    head.symbols = written := by
  unfold ofSymbols at read
  split at read
  · next rest => exact operand_written .log .log rest head (fun _ => rfl) (fun _ => rfl) read
  · next rest => exact read_written rest head read
  · next rest => exact assign_written rest head read
  · next rest => exact declare_written rest head read
  · next rest => exact operand_written .branch .branch rest head (fun _ => rfl) (fun _ => rfl) read
  · next rest => exact operand_written .loop .loop rest head (fun _ => rfl) (fun _ => rfl) read
  · next rest => exact define_written rest head read
  · next capture rest =>
      obtain ⟨name, arguments, rfl, rfl⟩ := call_written (some capture) rest head read
      rfl
  · next rest _ =>
      obtain ⟨name, arguments, rfl, rfl⟩ := call_written none rest head read
      rfl
  · next rest => exact give_written rest head read
  · cases read

end Offside.Head
