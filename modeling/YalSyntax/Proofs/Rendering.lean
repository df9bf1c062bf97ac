import YalSyntax.Tree
import YalSyntax.Proofs.Lexical.Separated

namespace YalSyntax

def Token.map (text : String → String) (place : Position → Position) (token : Token) : Token :=
  ⟨token.kind, text token.text, place token.position⟩

namespace Expr

mutual

def map (text : String → String) (place : Position → Position) : Expr → Expr
  | binary left operator right position =>
    binary (left.map text place) operator (right.map text place) (place position)
  | logical left operator right position =>
    logical (left.map text place) operator (right.map text place) (place position)
  | prefixed operator operand position =>
    prefixed operator (operand.map text place) (place position)
  | suffixed operator operand position =>
    suffixed operator (operand.map text place) (place position)
  | literal token => literal (token.map text place)
  | grouping inner position => grouping (inner.map text place) (place position)
  | ident name position => ident (text name) (place position)
  | assign name value position => assign (text name) (value.map text place) (place position)
  | call name arguments position =>
    call (text name) (mapList text place arguments) (place position)
  | returned value position => returned (mapOption text place value) (place position)

def mapList (text : String → String) (place : Position → Position) : List Expr → List Expr
  | [] => []
  | value :: others => value.map text place :: mapList text place others

def mapOption (text : String → String) (place : Position → Position) : Option Expr → Option Expr
  | none => none
  | some value => some (value.map text place)

end

theorem mapList_eq_map (text : String → String) (place : Position → Position)
    (values : List Expr) : mapList text place values = values.map (·.map text place) := by
  induction values with
  | nil => rfl
  | cons value others further => rw [mapList, further, List.map_cons]

mutual

theorem map_id : ∀ value : Expr, value.map id id = value
  | binary left _ right _ | logical left _ right _ => by rw [map, map_id left, map_id right]; rfl
  | prefixed _ operand _ | suffixed _ operand _ => by rw [map, map_id operand]; rfl
  | literal _ | ident _ _ => rfl
  | grouping inner _ => by rw [map, map_id inner]; rfl
  | assign _ value _ => by rw [map, map_id value]; rfl
  | call _ arguments _ => by rw [map, mapList_id arguments]; rfl
  | returned value _ => by rw [map, mapOption_id value]; rfl

theorem mapList_id : ∀ values : List Expr, mapList id id values = values
  | [] => rfl
  | value :: others => by rw [mapList, map_id value, mapList_id others]

theorem mapOption_id : ∀ value : Option Expr, mapOption id id value = value
  | none => rfl
  | some value => by rw [mapOption, map_id value]

end

end Expr

def Binding.map (text : String → String) (place : Position → Position) (binding : Binding) :
    Binding :=
  ⟨text binding.name, binding.type?.map text, Expr.mapOption text place binding.initializer,
    place binding.position⟩

theorem Binding.map_id (binding : Binding) : binding.map id id = binding := by
  rw [map, Option.map_id_apply, Expr.mapOption_id]
  rfl

namespace Stmt

mutual

def map (text : String → String) (place : Position → Position) : Stmt → Stmt
  | expression value position => expression (value.map text place) (place position)
  | declare binding => declare (binding.map text place)
  | typeDef name underlying position => typeDef (text name) (text underlying) (place position)
  | block body position => block (mapList text place body) (place position)
  | conditional condition yes no position =>
    conditional (condition.map text place) (yes.map text place) (mapOption text place no)
      (place position)
  | whileLoop condition body position =>
    whileLoop (condition.map text place) (body.map text place) (place position)
  | forLoop initializer condition increment body position =>
    forLoop (mapOption text place initializer) (Expr.mapOption text place condition)
      (Expr.mapOption text place increment) (body.map text place) (place position)
  | function name parameters returns body position =>
    function (text name) (parameters.map (·.map text place)) (returns.map text)
      (body.map text place) (place position)

def mapList (text : String → String) (place : Position → Position) : List Stmt → List Stmt
  | [] => []
  | stmt :: others => stmt.map text place :: mapList text place others

def mapOption (text : String → String) (place : Position → Position) : Option Stmt → Option Stmt
  | none => none
  | some stmt => some (stmt.map text place)

end

theorem mapList_eq_map (text : String → String) (place : Position → Position)
    (stmts : List Stmt) : mapList text place stmts = stmts.map (·.map text place) := by
  induction stmts with
  | nil => rfl
  | cons stmt others further => rw [mapList, further, List.map_cons]

mutual

theorem map_id : ∀ stmt : Stmt, stmt.map id id = stmt
  | expression value _ => by rw [map, value.map_id]; rfl
  | declare binding => by rw [map, binding.map_id]
  | typeDef _ _ _ => rfl
  | block body _ => by rw [map, mapList_id body]; rfl
  | conditional condition yes no _ => by
    rw [map, condition.map_id, map_id yes, mapOption_id no]
    rfl
  | whileLoop condition body _ => by rw [map, condition.map_id, map_id body]; rfl
  | forLoop initializer condition increment body _ => by
    rw [map, mapOption_id initializer, Expr.mapOption_id condition, Expr.mapOption_id increment,
      map_id body]
    rfl
  | function _ parameters returns body _ => by
    have same : Binding.map id id = id := funext Binding.map_id
    rw [map, same, List.map_id, Option.map_id_apply, map_id body]
    rfl

theorem mapList_id : ∀ stmts : List Stmt, mapList id id stmts = stmts
  | [] => rfl
  | stmt :: others => by rw [mapList, map_id stmt, mapList_id others]

theorem mapOption_id : ∀ stmt : Option Stmt, mapOption id id stmt = stmt
  | none => rfl
  | some stmt => by rw [mapOption, map_id stmt]

end

end Stmt

def Program.map (text : String → String) (place : Position → Position) (program : Program) :
    Program :=
  ⟨Stmt.mapList text place program.statements⟩

def Program.unplaced (program : Program) : Program := program.map id fun _ => .start

def listed : List (List (Token.Kind × String)) → List (Token.Kind × String)
  | [] => [(.rightParen, ")")]
  | [item] => item ++ [(.rightParen, ")")]
  | item :: others => item ++ (.comma, ",") :: listed others

namespace Expr

mutual

/-- The kinds and texts of the tokens that an expression is written with. -/
def written : Expr → List (Token.Kind × String)
  | binary left operator right _ =>
    left.written ++ (operator.kind, operator.symbol) :: right.written
  | logical left operator right _ =>
    left.written ++ (operator.kind, operator.symbol) :: right.written
  | prefixed operator operand _ => (operator.kind, operator.symbol) :: operand.written
  | suffixed operator operand _ => operand.written ++ [(operator.kind, operator.symbol)]
  | literal token => [token.spelled]
  | grouping inner _ => (.leftParen, "(") :: (inner.written ++ [(.rightParen, ")")])
  | ident name _ => [(.identifier, name)]
  | assign name value _ => (.identifier, name) :: (.equal, "=") :: value.written
  | call name arguments _ =>
    (.identifier, name) :: (.leftParen, "(") :: listed (writtenEach arguments)
  | returned value _ => (.returnWord, "return") :: writtenOption value

def writtenEach : List Expr → List (List (Token.Kind × String))
  | [] => []
  | value :: others => value.written :: writtenEach others

def writtenOption : Option Expr → List (Token.Kind × String)
  | none => []
  | some value => value.written

end

end Expr

def writtenType : Option String → List (Token.Kind × String)
  | none => []
  | some name => [(.colon, ":"), (.identifier, name)]

def writtenInitial : Option Expr → List (Token.Kind × String)
  | none => []
  | some value => (.equal, "=") :: value.written

def Binding.written (binding : Binding) : List (Token.Kind × String) :=
  (.identifier, binding.name) :: (writtenType binding.type? ++ writtenInitial binding.initializer)

theorem Binding.written_initialized {binding : Binding} (plain : binding.initializer = none)
    (initializer : Option Expr) (position : Position) :
    ({ binding with initializer, position } : Binding).written =
      binding.written ++ writtenInitial initializer := by
  simp [written, plain, writtenInitial]

def writtenCondition (condition : Expr) : List (Token.Kind × String) :=
  (.leftParen, "(") :: (condition.written ++ [(.rightParen, ")")])

namespace Stmt

mutual

def written : Stmt → List (Token.Kind × String)
  | expression value _ => value.written ++ [(.semicolon, ";")]
  | declare binding => (.letWord, "let") :: (binding.written ++ [(.semicolon, ";")])
  | typeDef name underlying _ =>
    [(.typeWord, "type"), (.identifier, name), (.equal, "="), (.identifier, underlying),
      (.semicolon, ";")]
  | block body _ => (.leftBrace, "\x7b") :: (writtenList body ++ [(.rightBrace, "\x7d")])
  | conditional condition yes no _ =>
    (.ifWord, "if") :: (writtenCondition condition ++ (yes.written ++ writtenElse no))
  | whileLoop condition body _ =>
    (.whileWord, "while") :: (writtenCondition condition ++ body.written)
  | forLoop initializer condition increment body _ =>
    (.forWord, "for") :: (.leftParen, "(") :: (writtenFirst initializer ++
      (Expr.writtenOption condition ++ (.semicolon, ";") ::
        (Expr.writtenOption increment ++ (.rightParen, ")") :: body.written)))
  | function name parameters returns body _ =>
    (.fnWord, "fn") :: (.identifier, name) :: (.leftParen, "(") ::
      (listed (parameters.map Binding.written) ++ (writtenType returns ++ body.written))

def writtenList : List Stmt → List (Token.Kind × String)
  | [] => []
  | stmt :: others => stmt.written ++ writtenList others

def writtenElse : Option Stmt → List (Token.Kind × String)
  | none => []
  | some stmt => (.elseWord, "else") :: stmt.written

/-- The first clause of a `for`. Its `;` belongs to a statement that stands there. -/
def writtenFirst : Option Stmt → List (Token.Kind × String)
  | none => [(.semicolon, ";")]
  | some stmt => stmt.written

end

end Stmt

namespace Program

def written (program : Program) : List (Token.Kind × String) := Stmt.writtenList program.statements

def render (program : Program) : String := " ".intercalate (program.written.map (·.2))

end Program

end YalSyntax
