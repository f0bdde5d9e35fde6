import Offside.Proofs.Blame
import Offside.Proofs.Sites
import Offside.Text.Row

set_option autoImplicit false

namespace Offside

namespace Expr

def rename (map : String → String) : Expr → Expr
  | .text value => .text value
  | .integer value => .integer value
  | .boolean value => .boolean value
  | .var name => .var (map name)
  | .cell index => .cell (index.rename map)
  | .binary left operator right => .binary (left.rename map) operator (right.rename map)

theorem rename_rename (outer inner : String → String) (expr : Expr) :
    (expr.rename inner).rename outer = expr.rename fun name => outer (inner name) := by
  induction expr with
  | text value => rfl
  | integer value => rfl
  | boolean value => rfl
  | var name => rfl
  | cell index ih => rw [rename, rename, rename, ih]
  | binary left operator right before after => rw [rename, rename, rename, before, after]

theorem rename_same (expr : Expr) : expr.rename (fun name => name) = expr := by
  induction expr with
  | text value => rfl
  | integer value => rfl
  | boolean value => rfl
  | var name => rfl
  | cell index ih => rw [rename, ih]
  | binary left operator right before after => rw [rename, before, after]

theorem vars_rename (map : String → String) (expr : Expr) : (expr.rename map).vars = expr.vars.map map := by
  induction expr with
  | text value => rfl
  | integer value => rfl
  | boolean value => rfl
  | var name => rfl
  | cell index ih => exact ih
  | binary left operator right before after => rw [rename, vars, vars, before, after, List.map_append]

end Expr

namespace Target

def rename (map : String → String) : Target → Target
  | .var name => .var (map name)
  | .cell index => .cell (index.rename map)

theorem rename_rename (outer inner : String → String) (target : Target) :
    (target.rename inner).rename outer = target.rename fun name => outer (inner name) := by
  cases target with
  | var name => rfl
  | cell index => rw [rename, rename, rename, Expr.rename_rename]

theorem rename_same (target : Target) : target.rename (fun name => name) = target := by
  cases target with
  | var name => rfl
  | cell index => rw [rename, Expr.rename_same]

theorem vars_rename (map : String → String) (target : Target) : (target.rename map).vars = target.vars.map map := by
  cases target with
  | var name => rfl
  | cell index => exact index.vars_rename map

end Target

namespace Head

def names : Head → List String
  | .declare name value => name :: value.vars
  | head => head.vars

-- A definition keeps its own name; its parameters are variables of its body.
def rename (outside inside : String → String) : Head → Head
  | .log value => .log (value.rename outside)
  | .read target => .read (target.rename outside)
  | .assign target value => .assign (target.rename outside) (value.rename outside)
  | .declare name value => .declare (outside name) (value.rename outside)
  | .branch condition => .branch (condition.rename outside)
  | .loop condition => .loop (condition.rename outside)
  | .define name params => .define name (params.map inside)
  | .call name arguments capture => .call name (arguments.map (Expr.rename outside)) (capture.map outside)
  | .give value => .give (value.map (Expr.rename outside))

theorem rename_rename (outer outside inside : String → String) (head : Head) :
    (head.rename outside inside).rename outer outer =
      head.rename (fun name => outer (outside name)) (fun name => outer (inside name)) := by
  have exprs := Expr.rename_rename outer outside
  cases head with
  | log value => rw [rename, rename, rename, exprs]
  | read target => rw [rename, rename, rename, Target.rename_rename]
  | assign target value => rw [rename, rename, rename, exprs, Target.rename_rename]
  | declare name value => rw [rename, rename, rename, exprs]
  | branch condition => rw [rename, rename, rename, exprs]
  | loop condition => rw [rename, rename, rename, exprs]
  | define name params =>
      rw [rename, rename, rename, List.map_map]
      rfl
  | call name arguments capture =>
      rw [rename, rename, rename, List.map_map, Option.map_map]
      simp only [Function.comp_def, exprs]
  | give value =>
      rw [rename, rename, rename, Option.map_map]
      simp only [Function.comp_def, exprs]

theorem rename_same (head : Head) : head.rename (fun name => name) (fun name => name) = head := by
  have exprs : Expr.rename (fun name => name) = id := funext Expr.rename_same
  cases head with
  | log value => rw [rename, exprs, id]
  | read target => rw [rename, Target.rename_same]
  | assign target value => rw [rename, exprs, Target.rename_same, id]
  | declare name value => rw [rename, exprs, id]
  | branch condition => rw [rename, exprs, id]
  | loop condition => rw [rename, exprs, id]
  | define name params => rw [rename, List.map_id']
  | call name arguments capture => rw [rename, exprs, List.map_id, Option.map_id']
  | give value => rw [rename, exprs, Option.map_id, id]

theorem vars_rename (outside inside : String → String) (head : Head) :
    (head.rename outside inside).vars = head.vars.map outside := by
  cases head with
  | log value => exact value.vars_rename outside
  | read target => exact target.vars_rename outside
  | assign target value => rw [rename, vars, vars, List.map_append, target.vars_rename, value.vars_rename]
  | declare name value => exact value.vars_rename outside
  | branch condition => exact condition.vars_rename outside
  | loop condition => exact condition.vars_rename outside
  | define name params => rfl
  | call name arguments capture =>
      rw [rename, vars, vars, List.map_append, List.flatMap_map, List.map_flatMap]
      simp only [Expr.vars_rename, Option.toList_map]
  | give value =>
      cases value with
      | none => rfl
      | some value =>
          change [value.rename outside].flatMap Expr.vars = ([value].flatMap Expr.vars).map outside
          rw [List.flatMap_singleton, List.flatMap_singleton, value.vars_rename]

theorem names_rename (outside inside : String → String) (head : Head) :
    (head.rename outside inside).names = head.names.map outside := by
  have vars := vars_rename outside inside head
  cases head with
  | declare name value =>
      rw [rename, names, names, List.map_cons, value.vars_rename]
  | _ => exact vars

theorem inner_rename (outside inside : String → String) (scope row : Nat) (head : Head) :
    (head.rename outside inside).inner scope row = head.inner scope row := by
  cases head <;> rfl

end Head

namespace Command

mutual

def rename (maps : Nat → String → String) (scope row : Nat) : Command → Command
  | ⟨line, head, body⟩ => ⟨line, head.rename (maps scope) (maps row), renameAll maps (head.inner scope row) (row + 1) body⟩

def renameAll (maps : Nat → String → String) (scope row : Nat) : List Command → List Command
  | [] => []
  | command :: more => command.rename maps scope row :: renameAll maps scope (row + command.size) more

end

mutual

def relabel (map : String → String) : Command → Command
  | ⟨line, head, body⟩ => ⟨line, head.rename map map, relabelAll map body⟩

def relabelAll (map : String → String) : List Command → List Command
  | [] => []
  | command :: more => command.relabel map :: relabelAll map more

end

mutual

theorem size_rename (maps : Nat → String → String) (scope row : Nat) (command : Command) :
    (command.rename maps scope row).size = command.size := by
  cases command with
  | mk line head body => rw [rename, size, size, sizes_rename maps (head.inner scope row) (row + 1) body]

theorem sizes_rename (maps : Nat → String → String) (scope row : Nat) (commands : List Command) :
    sizes (renameAll maps scope row commands) = sizes commands := by
  cases commands with
  | nil => rfl
  | cons command more =>
      rw [renameAll, sizes, sizes, size_rename maps scope row command, sizes_rename maps scope (row + command.size) more]

end

mutual

theorem relabel_rename (map : String → String) (maps : Nat → String → String) (scope row : Nat) (command : Command) :
    (command.rename maps scope row).relabel map = command.rename (fun scope name => map (maps scope name)) scope row := by
  cases command with
  | mk line head body =>
      rw [rename, relabel, rename, Head.rename_rename, relabel_rename_all map maps (head.inner scope row) (row + 1) body]

theorem relabel_rename_all (map : String → String) (maps : Nat → String → String) (scope row : Nat)
    (commands : List Command) :
    relabelAll map (renameAll maps scope row commands) =
      renameAll (fun scope name => map (maps scope name)) scope row commands := by
  cases commands with
  | nil => rfl
  | cons command more =>
      rw [renameAll, relabelAll, renameAll, relabel_rename map maps scope row command,
        relabel_rename_all map maps scope (row + command.size) more]

end

mutual

theorem rename_same (scope row : Nat) (command : Command) : command.rename (fun _ name => name) scope row = command := by
  cases command with
  | mk line head body => rw [rename, Head.rename_same, rename_all_same (head.inner scope row) (row + 1) body]

theorem rename_all_same (scope row : Nat) (commands : List Command) :
    renameAll (fun _ name => name) scope row commands = commands := by
  cases commands with
  | nil => rfl
  | cons command more =>
      rw [renameAll, rename_same scope row command, rename_all_same scope (row + command.size) more]

end

end Command

def Site.rename (maps : Nat → String → String) (site : Site) : Site :=
  ⟨site.scope, site.row, site.command.rename maps site.scope site.row⟩

namespace Command

mutual

theorem sites_rename (maps : Nat → String → String) (scope row : Nat) (command : Command) :
    (command.rename maps scope row).sites scope row = (command.sites scope row).map (Site.rename maps) := by
  cases command with
  | mk line head body =>
      rw [rename, sites, sites, Head.inner_rename, List.map_cons,
        sites_rename_all maps (head.inner scope row) (row + 1) body, Site.rename, rename]

theorem sites_rename_all (maps : Nat → String → String) (scope row : Nat) (commands : List Command) :
    sitesAll scope row (renameAll maps scope row commands) = (sitesAll scope row commands).map (Site.rename maps) := by
  cases commands with
  | nil => rfl
  | cons command more =>
      rw [renameAll, sitesAll, sitesAll, List.map_append, size_rename, sites_rename maps scope row command,
        sites_rename_all maps scope (row + command.size) more]

end

end Command

def qualify (scope : Nat) (name : String) : String := String.ofList (List.replicate scope ' ' ++ ':' :: name.toList)

def unqualify (name : String) : Nat × String :=
  ((name.toList.takeWhile Row.isSpace).length, String.ofList ((name.toList.dropWhile Row.isSpace).drop 1))

theorem unqualify_qualify (scope : Nat) (name : String) : unqualify (qualify scope name) = (scope, name) := by
  have spaces : ∀ space ∈ List.replicate scope ' ', Row.isSpace space = true := by
    intro space member
    rw [List.eq_of_mem_replicate member]
    rfl
  have stop : ¬ Row.isSpace ':' = true := by decide
  rw [unqualify, qualify, String.toList_ofList, List.takeWhile_append_of_pos spaces, List.dropWhile_append_of_pos spaces,
    List.takeWhile_cons_of_neg stop, List.dropWhile_cons_of_neg stop, List.append_nil, List.length_replicate,
    List.drop_succ_cons, List.drop_zero, String.ofList_toList]

theorem qualify_injective (scope : Nat) (first second : String) (same : qualify scope first = qualify scope second) :
    first = second := by
  have plain := congrArg unqualify same
  rw [unqualify_qualify, unqualify_qualify] at plain
  exact congrArg Prod.snd plain

end Offside
