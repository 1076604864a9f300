import ClassFoundry.Proofs.Descriptor
import ClassFoundry.Syntax.Program

/-!
# Expressions and variables of a program

The expressions that occur in a tree, as a list, what a front end promises about their annotations,
and the rule that a variable is used only after its declaration, in the block of the declaration or
in one inside it.

## Main definitions

* `Expr.nodes`, `Stmt.nodes`, `Program.nodes`: the expressions of a tree
* `Expr.BoolCondition`, `Program.Clean`: promises about the annotated types
* `Expr.variable?`: the variable that an expression stands for or calls a method of
* `FunDef.declarations`: the variables of a function with their types
* `Stmt.Scoped`, `FunDef.Scoped`: variables are used where they are known

## Main results

* `Expr.closed_nodes`, `Stmt.closed_nodes`: the lists hold also the expressions inside expressions
-/

namespace ClassFoundry

mutual

/-- The expressions of which an expression consists, itself included. -/
def Expr.nodes : Expr → List Expr
  | .ident name ty => [.ident name ty]
  | .int value ty => [.int value ty]
  | .char c => [.char c]
  | .str text => [.str text]
  | .arith op lhs rhs ty => .arith op lhs rhs ty :: (lhs.nodes ++ rhs.nodes)
  | .compare op lhs rhs ty => .compare op lhs rhs ty :: (lhs.nodes ++ rhs.nodes)
  | .logic op lhs rhs ty => .logic op lhs rhs ty :: (lhs.nodes ++ rhs.nodes)
  | .unary op operand ty => .unary op operand ty :: operand.nodes
  | .not operand ty => .not operand ty :: operand.nodes
  | .call object name args ty => .call object name args ty :: Expr.nodesOf args

/-- The expressions of which arguments consist. -/
def Expr.nodesOf : List Expr → List Expr
  | [] => []
  | e :: rest => e.nodes ++ Expr.nodesOf rest

end

/-- An expression is one of those that it consists of. -/
theorem Expr.mem_nodes_self (e : Expr) : e ∈ e.nodes := by
  cases e <;> simp [nodes]

/-- The expressions of a value that need not be there. -/
def Expr.nodesOf? : Option Expr → List Expr
  | some e => e.nodes
  | none => []

mutual

/-- The expressions of a statement. A call that stands as a statement is one of them. -/
def Stmt.nodes : Stmt → List Expr
  | .declare _ _ init => Expr.nodesOf? init
  | .assign _ value => value.nodes
  | .ret value => Expr.nodesOf? value
  | .ifThen cond body => cond.nodes ++ Stmt.nodesOf body
  | .ifElse cond body orElse => cond.nodes ++ (Stmt.nodesOf body ++ Stmt.nodesOf orElse)
  | .loop cond body => cond.nodes ++ Stmt.nodesOf body
  | .break | .continue => []
  | .call object name args ty => (Expr.call object name args ty).nodes

/-- The expressions of a block. -/
def Stmt.nodesOf : List Stmt → List Expr
  | [] => []
  | s :: rest => s.nodes ++ Stmt.nodesOf rest

end

/-- The expressions of a program. -/
def Program.nodes (p : Program) : List Expr := p.functions.flatMap fun f => Stmt.nodesOf f.body

theorem Program.mem_nodes {p : Program} {f : FunDef} (hf : f ∈ p.functions) {e : Expr}
    (he : e ∈ Stmt.nodesOf f.body) : e ∈ p.nodes :=
  List.mem_flatMap.2 ⟨f, hf, he⟩

/-! ## Inner expressions -/

/-- A list of expressions that holds also those inside its members. -/
def Expr.Closed (l : List Expr) : Prop := ∀ e ∈ l, ∀ n ∈ e.nodes, n ∈ l

theorem Expr.Closed.append {l l' : List Expr} (h : Expr.Closed l) (h' : Expr.Closed l') :
    Expr.Closed (l ++ l') := by
  intro e he n hn
  rcases List.mem_append.1 he with he | he
  · exact List.mem_append_left _ (h e he n hn)
  · exact List.mem_append_right _ (h' e he n hn)

theorem Expr.Closed.cons {e : Expr} {l : List Expr} (h : Expr.Closed l) (he : e.nodes = e :: l) :
    Expr.Closed e.nodes := by
  intro e' he' n hn
  rw [he] at he'
  rcases List.mem_cons.1 he' with rfl | he'
  · exact hn
  · rw [he]
    exact List.mem_cons_of_mem _ (h e' he' n hn)

mutual

theorem Expr.closed_nodes (e : Expr) : Expr.Closed e.nodes := by
  have hnil : Expr.Closed [] := nofun
  cases e with
  | ident name ty => exact hnil.cons rfl
  | int value ty => exact hnil.cons rfl
  | char c => exact hnil.cons rfl
  | str text => exact hnil.cons rfl
  | arith op lhs rhs ty => exact (lhs.closed_nodes.append rhs.closed_nodes).cons rfl
  | compare op lhs rhs ty => exact (lhs.closed_nodes.append rhs.closed_nodes).cons rfl
  | logic op lhs rhs ty => exact (lhs.closed_nodes.append rhs.closed_nodes).cons rfl
  | unary op operand ty => exact operand.closed_nodes.cons rfl
  | not operand ty => exact operand.closed_nodes.cons rfl
  | call object name args ty => exact (Expr.closed_nodesOf args).cons rfl

theorem Expr.closed_nodesOf (args : List Expr) : Expr.Closed (Expr.nodesOf args) := by
  cases args with
  | nil => exact nofun
  | cons e rest => exact e.closed_nodes.append (Expr.closed_nodesOf rest)

end

theorem Expr.closed_nodesOf? (e : Option Expr) : Expr.Closed (Expr.nodesOf? e) := by
  cases e with
  | none => exact nofun
  | some e => exact e.closed_nodes

mutual

theorem Stmt.closed_nodes (s : Stmt) : Expr.Closed s.nodes := by
  cases s with
  | declare name ty init => exact Expr.closed_nodesOf? init
  | assign name value => exact value.closed_nodes
  | ret value => exact Expr.closed_nodesOf? value
  | ifThen cond body => exact cond.closed_nodes.append (Stmt.closed_nodesOf body)
  | ifElse cond body orElse =>
    exact cond.closed_nodes.append ((Stmt.closed_nodesOf body).append (Stmt.closed_nodesOf orElse))
  | loop cond body => exact cond.closed_nodes.append (Stmt.closed_nodesOf body)
  | «break» => exact nofun
  | «continue» => exact nofun
  | call object name args ty => exact Expr.closed_nodes _

theorem Stmt.closed_nodesOf (block : List Stmt) : Expr.Closed (Stmt.nodesOf block) := by
  cases block with
  | nil => exact nofun
  | cons s rest => exact s.closed_nodes.append (Stmt.closed_nodesOf rest)

end

theorem Expr.mem_nodesOf {args : List Expr} {e : Expr} (h : e ∈ args) : e ∈ Expr.nodesOf args := by
  induction args with
  | nil => cases h
  | cons a rest ih =>
    rcases List.mem_cons.1 h with rfl | h
    · exact List.mem_append_left _ e.mem_nodes_self
    · exact List.mem_append_right _ (ih h)

/-- The arguments of a call in a program are expressions of the program. -/
theorem Program.mem_nodes_of_call {p : Program} {object : Option String} {name : String}
    {args : List Expr} {ty : DataType} (h : Expr.call object name args ty ∈ p.nodes) {e : Expr}
    (he : e ∈ args) : e ∈ p.nodes := by
  obtain ⟨f, hf, h⟩ := List.mem_flatMap.1 h
  exact Program.mem_nodes hf (Stmt.closed_nodesOf f.body _ h _
    (List.mem_cons_of_mem _ (Expr.mem_nodesOf he)))

/-! ## Annotations -/

/-- Whether a comparison, a connective or a negation is annotated as a condition. -/
def Expr.BoolCondition : Expr → Prop
  | .compare _ _ _ ty | .logic _ _ _ ty | .not _ ty => ty = .bool
  | _ => True

/-- Whether the class names in the types of a program are clean. -/
structure Program.Clean (p : Program) : Prop where
  params : ∀ f ∈ p.functions, ∀ q ∈ f.params, q.ty.Clean
  results : ∀ f ∈ p.functions, f.returnType.Clean
  nodes : ∀ e ∈ p.nodes, e.ty.Clean

/-! ## Variables -/

/-- The variable that an expression stands for, or that it calls a method of. -/
def Expr.variable? : Expr → Option String
  | .ident name _ => some name
  | .call object _ _ _ => object
  | _ => none

/-- Whether expressions use only known variables. -/
def Expr.Scoped (known : String → Prop) (nodes : List Expr) : Prop :=
  ∀ e ∈ nodes, ∀ name ∈ e.variable?, known name

mutual

/-- The variables that a statement declares, with their types. -/
def Stmt.declarations : Stmt → List (String × DataType)
  | .declare name ty _ => [(name, ty)]
  | .ifThen _ body => Stmt.declarationsOf body
  | .ifElse _ body orElse => Stmt.declarationsOf body ++ Stmt.declarationsOf orElse
  | .loop _ body => Stmt.declarationsOf body
  | _ => []

/-- The variables that a block declares. -/
def Stmt.declarationsOf : List Stmt → List (String × DataType)
  | [] => []
  | s :: rest => s.declarations ++ Stmt.declarationsOf rest

end

/-- The parameters and the other variables of a function, with their types. -/
def FunDef.declarations (f : FunDef) : List (String × DataType) :=
  f.params.map (fun q => (q.name, q.ty)) ++ Stmt.declarationsOf f.body

/-- The variable that is known after a statement, if the statement declares one. -/
def Stmt.declared? : Stmt → Option String
  | .declare name _ _ => some name
  | _ => none

/-- What is known after a statement. -/
def Stmt.knownAfter (known : String → Prop) (s : Stmt) : String → Prop :=
  fun name => known name ∨ s.declared? = some name

mutual

/-- **Whether a statement uses only known variables**. The first value of a variable does not yet
know it. -/
def Stmt.Scoped (known : String → Prop) : Stmt → Prop
  | .declare _ _ init => Expr.Scoped known (Expr.nodesOf? init)
  | .assign name value => known name ∧ Expr.Scoped known value.nodes
  | .ret value => Expr.Scoped known (Expr.nodesOf? value)
  | .ifThen cond body => Expr.Scoped known cond.nodes ∧ Stmt.AllScoped known body
  | .ifElse cond body orElse => Expr.Scoped known cond.nodes ∧ Stmt.AllScoped known body ∧
      Stmt.AllScoped known orElse
  | .loop cond body => Expr.Scoped known cond.nodes ∧ Stmt.AllScoped known body
  | .break | .continue => True
  | .call object name args ty => Expr.Scoped known (Expr.call object name args ty).nodes

/-- Whether a block uses only known variables; what it declares is known to the statements that
follow. -/
def Stmt.AllScoped (known : String → Prop) : List Stmt → Prop
  | [] => True
  | s :: rest => s.Scoped known ∧ Stmt.AllScoped (s.knownAfter known) rest

end

/-- **Whether every variable of a function is used only after its declaration**, in the block of
the declaration or in one inside it. -/
def FunDef.Scoped (f : FunDef) : Prop :=
  Stmt.AllScoped (fun name => ∃ p ∈ f.params, p.name = name) f.body

mutual

/-- Where every name is known, every use is allowed. -/
theorem Stmt.scoped_of_forall {known : String → Prop} (h : ∀ name, known name) (s : Stmt) :
    s.Scoped known := by
  cases s with
  | declare name ty init => exact fun _ _ name _ => h name
  | assign name value => exact ⟨h name, fun _ _ name _ => h name⟩
  | ret value => exact fun _ _ name _ => h name
  | ifThen cond body => exact ⟨fun _ _ name _ => h name, Stmt.allScoped_of_forall h body⟩
  | ifElse cond body orElse =>
    exact ⟨fun _ _ name _ => h name, Stmt.allScoped_of_forall h body,
      Stmt.allScoped_of_forall h orElse⟩
  | loop cond body => exact ⟨fun _ _ name _ => h name, Stmt.allScoped_of_forall h body⟩
  | «break» => trivial
  | «continue» => trivial
  | call object name args ty => exact fun _ _ name _ => h name

theorem Stmt.allScoped_of_forall {known : String → Prop} (h : ∀ name, known name)
    (block : List Stmt) : Stmt.AllScoped known block := by
  cases block with
  | nil => trivial
  | cons s rest =>
    exact ⟨Stmt.scoped_of_forall h s, Stmt.allScoped_of_forall (fun name => .inl (h name)) rest⟩

end

end ClassFoundry
