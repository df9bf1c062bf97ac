import YalSyntax.Tree

namespace YalSyntax

namespace Expr

mutual

def same : Expr → Expr → Bool
  | binary l₁ o₁ r₁ p₁, binary l₂ o₂ r₂ p₂ => same l₁ l₂ && o₁ == o₂ && same r₁ r₂ && p₁ == p₂
  | logical l₁ o₁ r₁ p₁, logical l₂ o₂ r₂ p₂ => same l₁ l₂ && o₁ == o₂ && same r₁ r₂ && p₁ == p₂
  | prefixed o₁ e₁ p₁, prefixed o₂ e₂ p₂ => o₁ == o₂ && same e₁ e₂ && p₁ == p₂
  | suffixed o₁ e₁ p₁, suffixed o₂ e₂ p₂ => o₁ == o₂ && same e₁ e₂ && p₁ == p₂
  | literal t₁, literal t₂ => t₁ == t₂
  | grouping e₁ p₁, grouping e₂ p₂ => same e₁ e₂ && p₁ == p₂
  | ident n₁ p₁, ident n₂ p₂ => n₁ == n₂ && p₁ == p₂
  | assign n₁ e₁ p₁, assign n₂ e₂ p₂ => n₁ == n₂ && same e₁ e₂ && p₁ == p₂
  | call n₁ a₁ p₁, call n₂ a₂ p₂ => n₁ == n₂ && sameList a₁ a₂ && p₁ == p₂
  | returned v₁ p₁, returned v₂ p₂ => sameOption v₁ v₂ && p₁ == p₂
  | _, _ => false

def sameList : List Expr → List Expr → Bool
  | [], [] => true
  | e₁ :: rest₁, e₂ :: rest₂ => same e₁ e₂ && sameList rest₁ rest₂
  | _, _ => false

def sameOption : Option Expr → Option Expr → Bool
  | none, none => true
  | some e₁, some e₂ => same e₁ e₂
  | _, _ => false

end

mutual

theorem same_iff : ∀ first second : Expr, same first second = true ↔ first = second
  | binary l _ r _, second => by cases second <;> simp [same, same_iff l, same_iff r, and_assoc]
  | logical l _ r _, second => by cases second <;> simp [same, same_iff l, same_iff r, and_assoc]
  | prefixed _ e _, second => by cases second <;> simp [same, same_iff e, and_assoc]
  | suffixed _ e _, second => by cases second <;> simp [same, same_iff e, and_assoc]
  | literal _, second => by cases second <;> simp [same]
  | grouping e _, second => by cases second <;> simp [same, same_iff e]
  | ident _ _, second => by cases second <;> simp [same]
  | assign _ e _, second => by cases second <;> simp [same, same_iff e, and_assoc]
  | call _ a _, second => by cases second <;> simp [same, sameList_iff a, and_assoc]
  | returned v _, second => by cases second <;> simp [same, sameOption_iff v]

theorem sameList_iff : ∀ first second : List Expr, sameList first second = true ↔ first = second
  | [], second => by cases second <;> simp [sameList]
  | e :: rest, second => by cases second <;> simp [sameList, same_iff e, sameList_iff rest]

theorem sameOption_iff : ∀ first second : Option Expr,
    sameOption first second = true ↔ first = second
  | none, second => by cases second <;> simp [sameOption]
  | some e, second => by cases second <;> simp [sameOption, same_iff e]

end

instance : DecidableEq Expr := fun first second => decidable_of_iff _ (same_iff first second)

end Expr

deriving instance DecidableEq for Binding

namespace Stmt

mutual

def same : Stmt → Stmt → Bool
  | expression e₁ p₁, expression e₂ p₂ => e₁ == e₂ && p₁ == p₂
  | declare b₁, declare b₂ => b₁ == b₂
  | typeDef n₁ u₁ p₁, typeDef n₂ u₂ p₂ => n₁ == n₂ && u₁ == u₂ && p₁ == p₂
  | block b₁ p₁, block b₂ p₂ => sameList b₁ b₂ && p₁ == p₂
  | conditional c₁ y₁ n₁ p₁, conditional c₂ y₂ n₂ p₂ =>
    c₁ == c₂ && same y₁ y₂ && sameOption n₁ n₂ && p₁ == p₂
  | whileLoop c₁ b₁ p₁, whileLoop c₂ b₂ p₂ => c₁ == c₂ && same b₁ b₂ && p₁ == p₂
  | forLoop i₁ c₁ s₁ b₁ p₁, forLoop i₂ c₂ s₂ b₂ p₂ =>
    sameOption i₁ i₂ && c₁ == c₂ && s₁ == s₂ && same b₁ b₂ && p₁ == p₂
  | function n₁ q₁ r₁ b₁ p₁, function n₂ q₂ r₂ b₂ p₂ =>
    n₁ == n₂ && q₁ == q₂ && r₁ == r₂ && same b₁ b₂ && p₁ == p₂
  | _, _ => false

def sameList : List Stmt → List Stmt → Bool
  | [], [] => true
  | s₁ :: rest₁, s₂ :: rest₂ => same s₁ s₂ && sameList rest₁ rest₂
  | _, _ => false

def sameOption : Option Stmt → Option Stmt → Bool
  | none, none => true
  | some s₁, some s₂ => same s₁ s₂
  | _, _ => false

end

mutual

theorem same_iff : ∀ first second : Stmt, same first second = true ↔ first = second
  | expression _ _, second => by cases second <;> simp [same]
  | declare _, second => by cases second <;> simp [same]
  | typeDef _ _ _, second => by cases second <;> simp [same, and_assoc]
  | block b _, second => by cases second <;> simp [same, sameList_iff b]
  | conditional _ y n _, second => by
    cases second <;> simp [same, same_iff y, sameOption_iff n, and_assoc]
  | whileLoop _ b _, second => by cases second <;> simp [same, same_iff b, and_assoc]
  | forLoop i _ _ b _, second => by
    cases second <;> simp [same, same_iff b, sameOption_iff i, and_assoc]
  | function _ _ _ b _, second => by cases second <;> simp [same, same_iff b, and_assoc]

theorem sameList_iff : ∀ first second : List Stmt, sameList first second = true ↔ first = second
  | [], second => by cases second <;> simp [sameList]
  | s :: rest, second => by cases second <;> simp [sameList, same_iff s, sameList_iff rest]

theorem sameOption_iff : ∀ first second : Option Stmt,
    sameOption first second = true ↔ first = second
  | none, second => by cases second <;> simp [sameOption]
  | some s, second => by cases second <;> simp [sameOption, same_iff s]

end

instance : DecidableEq Stmt := fun first second => decidable_of_iff _ (same_iff first second)

end Stmt

deriving instance DecidableEq for Program

end YalSyntax
