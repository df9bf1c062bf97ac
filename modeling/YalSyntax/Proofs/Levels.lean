import YalSyntax.Proofs.Outcome

namespace YalSyntax

namespace Expr

mutual

/-- The levels opened inside an expression, its own one not counted. -/
def levels : Expr → Nat
  | binary left _ right _ | logical left _ right _ => max left.levels right.levels
  | prefixed _ operand _ => operand.levels + 1
  | suffixed _ operand _ => operand.levels
  | literal _ | ident _ _ => 0
  | grouping inner _ => inner.levels + 1
  | assign _ value _ => value.levels + 1
  | call _ arguments _ => levelsList arguments
  | returned value _ => levelsOption value

def levelsList : List Expr → Nat
  | [] => 0
  | value :: others => max (value.levels + 1) (levelsList others)

def levelsOption : Option Expr → Nat
  | none => 0
  | some value => value.levels + 1

end

@[simp] theorem levels_operation (operator : Operator) (left right : Expr) (position : Position) :
    (operation operator left right position).levels = max left.levels right.levels := by
  cases operator <;> simp [operation, levels]

end Expr

namespace Binding

def levels (binding : Binding) : Nat := Expr.levelsOption binding.initializer

def levelsList : List Binding → Nat
  | [] => 0
  | binding :: others => max binding.levels (levelsList others)

theorem levelsList_of_uninitialized {bindings : List Binding}
    (plain : ∀ binding ∈ bindings, binding.initializer = none) : levelsList bindings = 0 := by
  induction bindings with
  | nil => rfl
  | cons binding others further =>
    obtain ⟨absent, plain⟩ := List.forall_mem_cons.mp plain
    rw [levelsList, further plain, levels, absent]
    rfl

end Binding

namespace Stmt

mutual

def levels : Stmt → Nat
  | expression value _ => value.levels + 1
  | declare binding => binding.levels
  | typeDef _ _ _ => 0
  | block body _ => levelsList body
  | conditional condition yes no _ =>
    max (condition.levels + 1) (max (yes.levels + 1) (levelsElse no))
  | whileLoop condition body _ => max (condition.levels + 1) (body.levels + 1)
  | forLoop initializer condition increment body _ =>
    max (levelsFirst initializer)
      (max (Expr.levelsOption condition) (max (Expr.levelsOption increment) (body.levels + 1)))
  | function _ parameters _ body _ => max (Binding.levelsList parameters) (body.levels + 1)

def levelsList : List Stmt → Nat
  | [] => 0
  | declare binding :: others => max (levels (declare binding)) (levelsList others)
  | typeDef name underlying position :: others =>
    max (levels (typeDef name underlying position)) (levelsList others)
  | stmt :: others => max (stmt.levels + 1) (levelsList others)

def levelsElse : Option Stmt → Nat
  | none => 0
  | some stmt => stmt.levels + 1

/-- The first clause of a `for` opens no level of its own. -/
def levelsFirst : Option Stmt → Nat
  | none => 0
  | some stmt => stmt.levels

end

/-- The levels of a declaration with its own one, which `let` and `type` do not open. -/
def entered : Stmt → Nat
  | declare binding => (declare binding).levels
  | typeDef name underlying position => (typeDef name underlying position).levels
  | stmt => stmt.levels + 1

theorem levelsList_cons (stmt : Stmt) (others : List Stmt) :
    levelsList (stmt :: others) = max stmt.entered (levelsList others) := by
  cases stmt <;> simp only [levelsList, entered]

theorem levels_function {name : String} {parameters : List Binding} {returns : Option String}
    {body : Stmt} {position : Position}
    (plain : ∀ parameter ∈ parameters, parameter.initializer = none) :
    (function name parameters returns body position).levels = body.levels + 1 := by
  rw [levels, Binding.levelsList_of_uninitialized plain, Nat.zero_max]

end Stmt

/-- A phrase that opens `levels` levels in its tree needs `depth` levels to be read. They are as many,
unless the phrase leaves a `return` out, which opens a level only in the tree. -/
structure Measures (implicit : Bool) (depth levels : Nat) : Prop where
  exact : implicit = false → depth = levels
  near : levels ≤ depth + 1

namespace Measures

variable {implicit : Bool} {depth levels depth' levels' : Nat}

theorem refl : Measures implicit depth depth := ⟨fun _ => rfl, Nat.le_succ depth⟩

theorem succ (measures : Measures implicit depth levels) :
    Measures implicit (depth + 1) (levels + 1) :=
  ⟨fun explicit => congrArg Nat.succ (measures.exact explicit), Nat.succ_le_succ measures.near⟩

theorem join (measures : Measures implicit depth levels)
    (measures' : Measures implicit depth' levels') :
    Measures implicit (max depth depth') (max levels levels') := by
  refine ⟨fun explicit => ?_, Nat.max_le.mpr ⟨?_, ?_⟩⟩
  · rw [measures.exact explicit, measures'.exact explicit]
  · exact Nat.le_trans measures.near (Nat.succ_le_succ (Nat.le_max_left _ _))
  · exact Nat.le_trans measures'.near (Nat.succ_le_succ (Nat.le_max_right _ _))

end Measures

namespace Allowance

def Covers : Allowance → Nat → Prop
  | unlimited, _ => True
  | levels count, depth => depth ≤ count

@[simp] theorem covers_zero (room : Allowance) : room.Covers 0 := by
  cases room <;> simp [Covers]

@[simp] theorem covers_max {room : Allowance} {first second : Nat} :
    room.Covers (max first second) ↔ room.Covers first ∧ room.Covers second := by
  cases room with
  | unlimited => simp [Covers]
  | levels count => exact Nat.max_le

theorem covers_succ_iff {room : Allowance} {depth : Nat} :
    room.Covers (depth + 1) ↔ ∃ inner, room.open? = some inner ∧ inner.Covers depth := by
  match room with
  | unlimited => simp [Covers, open?]
  | levels 0 => simp [Covers, open?]
  | levels (count + 1) => simp [Covers, open?]

end Allowance

namespace Outcome

variable {α β : Type} {bound wider : Nat}

def TooDeep (outcome : Outcome α bound) : Prop := ∃ rest, outcome = .error .tooDeep rest

/-- The reading comes to `value` and leaves `rest` if there are enough levels, and is too deep
otherwise. -/
structure Comes (outcome : Outcome α bound) (enough : Prop) (value : α) (rest : List Token) :
    Prop where
  reads : enough → ∃ shorter, outcome = .ok value rest shorter
  fails : ¬ enough → outcome.TooDeep

structure Continues (outcome : Outcome α bound) (enough : Prop) (rest : List Token)
    (next : rest.length < bound → Outcome α bound) : Prop where
  reads : enough → ∃ within, outcome = next within
  fails : ¬ enough → outcome.TooDeep

theorem Continues.comes {outcome : Outcome α bound} {enough : Prop} {value : α}
    {rest : List Token} {next : rest.length < bound → Outcome α bound}
    (continues : outcome.Continues enough rest next)
    (ends : ∀ within, next within = .ok value rest within) : outcome.Comes enough value rest := by
  refine ⟨fun covered => ?_, continues.fails⟩
  obtain ⟨within, same⟩ := continues.reads covered
  exact ⟨within, same.trans (ends within)⟩

theorem Comes.ok {value : α} {rest : List Token} {shorter : rest.length < bound} :
    (Outcome.ok value rest shorter).Comes True value rest :=
  ⟨fun _ => ⟨shorter, rfl⟩, fun lack => absurd trivial lack⟩

theorem Comes.congr {outcome : Outcome α bound} {enough other : Prop} {value : α}
    {rest : List Token} (comes : outcome.Comes enough value rest) (same : enough ↔ other) :
    outcome.Comes other value rest := by
  rw [← same]
  exact comes

theorem TooDeep.andThen {outcome : Outcome α bound} (deep : outcome.TooDeep)
    (next : (value : α) → (rest : List Token) → rest.length < bound → Outcome β wider) :
    (outcome.andThen next).TooDeep := by
  obtain ⟨rest, rfl⟩ := deep
  exact ⟨rest, rfl⟩

theorem Comes.andThen {outcome : Outcome α bound} {enough : Prop} {first : α}
    {middle rest : List Token} {value : β}
    {next : (value : α) → (rest : List Token) → rest.length < bound → Outcome β wider}
    (comes : outcome.Comes enough first middle) (more : Prop)
    (then_ : ∀ within, (next first middle within).Comes more value rest) :
    (outcome.andThen next).Comes (enough ∧ more) value rest := by
  by_cases covered : enough
  · obtain ⟨within, rfl⟩ := comes.reads covered
    exact (then_ within).congr (by simp [covered])
  · refine ⟨fun both => absurd both.1 covered, fun _ => ?_⟩
    exact (comes.fails covered).andThen next

theorem Comes.andThen_ok {outcome : Outcome α bound} {enough : Prop} {first : α}
    {rest : List Token} {result : α → β}
    {shorter : α → ∀ rest : List Token, rest.length < bound → rest.length < wider}
    (comes : outcome.Comes enough first rest) :
    (outcome.andThen fun value rest within => .ok (result value) rest (shorter value rest within)).Comes
      enough (result first) rest := by
  refine (comes.andThen True fun within => ?_).congr (and_iff_left trivial)
  exact Comes.ok

theorem Comes.nested {room : Allowance} {tokens : List Token}
    {body : Allowance → Outcome α bound} {depth : Nat} {value : α} {rest : List Token}
    (comes : ∀ inner, (body inner).Comes (inner.Covers depth) value rest) :
    (Outcome.nested room tokens body).Comes (room.Covers (depth + 1)) value rest := by
  unfold Outcome.nested
  rw [Allowance.covers_succ_iff]
  cases room.open? with
  | none => exact ⟨fun enough => (nomatch enough), fun _ => ⟨tokens, rfl⟩⟩
  | some inner => exact (comes inner).congr (by simp)

end Outcome

end YalSyntax
