import Mathlib
import YalSyntax.Proofs.Grammar.Completeness.Statement

namespace YalSyntax

open Grammar

namespace Reading

/-- The tokens of a stream before its first end token. -/
def content (tokens : List Token) : List Token := tokens.takeWhile (·.kind ≠ .finish)

theorem ofTokens_upcoming (tokens : List Token) : (ofTokens tokens).upcoming = content tokens := by
  simp [ofTokens, content, isFinish]

theorem run_of_ok {reading : Reading} {room : Allowance} {program : Program} {rest : List Token}
    (read : declarations room [] reading.upcoming = (.ok program, rest)) :
    (reading.run room).1 = .ok program := by
  simp [run, read, Except.mapError]

theorem run_of_error {reading : Reading} {room : Allowance} {fault : Fault} {rest : List Token}
    (read : declarations room [] reading.upcoming = (.error fault, rest)) :
    (reading.run room).1 = .error (fault.report (rest.headD reading.finish)) := by
  simp [run, read, Except.mapError, next]

theorem run_eq_ok {reading : Reading} {room : Allowance} {program : Program}
    (read : (reading.run room).1 = .ok program) :
    ∃ rest, declarations room [] reading.upcoming = (.ok program, rest) := by
  cases found : declarations room [] reading.upcoming with
  | mk result rest =>
    cases result with
    | ok result =>
      rw [run_of_ok found] at read
      cases read
      exact ⟨rest, rfl⟩
    | error fault =>
      rw [run_of_error found] at read
      cases read

end Reading

open Reading

theorem derives_of_parseTokens {tokens : List Token} {program : Program}
    (read : parseTokens tokens = .ok program) : Derives true (content tokens) program := by
  obtain ⟨rest, found⟩ := run_eq_ok read
  rw [ofTokens_upcoming] at found
  obtain ⟨others, same, derived⟩ := declarations_sound _ [] _ found
  rw [List.reverse_nil, List.nil_append] at same
  rw [Derives, same]
  exact derived

theorem Reading.ProgramComes.run {depth : Nat} {reading : Reading} {body : List Stmt}
    (comes : ProgramComes depth reading.upcoming body) (room : Allowance) :
    (room.Covers depth → (reading.run room).1 = .ok ⟨body⟩) ∧
      (¬ room.Covers depth → ∃ position, (reading.run room).1 = .error (.tooDeep position)) := by
  obtain ⟨reads, fails⟩ := comes room []
  refine ⟨fun covered => run_of_ok (reads covered), fun lack => ?_⟩
  obtain ⟨left, found⟩ := fails lack
  exact ⟨_, run_of_error found⟩

theorem Reading.ProgramComes.parseTokens {depth : Nat} {tokens : List Token} {body : List Stmt}
    (comes : ProgramComes depth (content tokens) body) :
    (depth ≤ nestingLimit → parseTokens tokens = .ok ⟨body⟩) ∧
      (nestingLimit < depth → ∃ position, parseTokens tokens = .error (.tooDeep position)) := by
  rw [← ofTokens_upcoming] at comes
  obtain ⟨reads, fails⟩ := comes.run (.levels nestingLimit)
  exact ⟨reads, fun lack => fails (Nat.not_le.mpr lack)⟩

theorem Reading.ProgramComes.of_parseTokens {depth : Nat} {tokens : List Token} {body : List Stmt}
    {program : Program} (comes : ProgramComes depth (content tokens) body)
    (read : YalSyntax.parseTokens tokens = .ok program) :
    depth ≤ nestingLimit ∧ program = ⟨body⟩ := by
  obtain ⟨reads, fails⟩ := comes.parseTokens
  rcases Nat.lt_or_ge nestingLimit depth with lack | covered
  · obtain ⟨position, failed⟩ := fails lack
    rw [read] at failed
    cases failed
  · exact ⟨covered, Except.ok.inj (read.symm.trans (reads covered))⟩

/-- The one thing that can keep a derived program from being read is the nesting limit, and that
only if the program has more levels or leaves a `return` out. -/
theorem parseTokens_of_derives {implicit : Bool} {tokens : List Token} {program : Program}
    (derived : Derives implicit (content tokens) program) :
    ∃ depth, (implicit = false → depth = Stmt.levelsList program.statements) ∧
      (depth ≤ nestingLimit → parseTokens tokens = .ok program) ∧
      (nestingLimit < depth → ∃ position, parseTokens tokens = .error (.tooDeep position)) := by
  obtain ⟨depth, measures, comes⟩ := program_complete derived
  exact ⟨depth, measures.exact, comes.parseTokens⟩

/-- The tokens before the first end token derive what is read from a stream, and what they derive is
read, or is nested too deep. -/
theorem parseTokens_exact (tokens : List Token) :
    (∀ program, parseTokens tokens = .ok program → Derives true (content tokens) program) ∧
      ∀ program, Derives true (content tokens) program →
        parseTokens tokens = .ok program ∨
          ∃ position, parseTokens tokens = .error (.tooDeep position) := by
  refine ⟨fun program read => derives_of_parseTokens read, fun program derived => ?_⟩
  obtain ⟨depth, -, reads, fails⟩ := parseTokens_of_derives derived
  rcases Nat.lt_or_ge nestingLimit depth with lack | covered
  · exact .inr (fails lack)
  · exact .inl (reads covered)

theorem derives_block_of_tail :
    let tokens : List Token := [⟨.leftBrace, "\x7b", ⟨1, 1⟩⟩, ⟨.identifier, "x", ⟨1, 3⟩⟩,
      ⟨.rightBrace, "\x7d", ⟨1, 5⟩⟩, ⟨.finish, "", ⟨1, 6⟩⟩, ⟨.comma, ",", ⟨1, 7⟩⟩]
    let program : Program := ⟨[.block
      [.expression (.returned (some (.ident "x" ⟨1, 3⟩)) ⟨1, 3⟩) ⟨1, 3⟩] ⟨1, 1⟩]⟩
    parseTokens tokens = .ok program ∧ Derives true (content tokens) program := by
  intro tokens program
  have read : parseTokens tokens = .ok program := by cbv
  exact ⟨read, (parseTokens_exact tokens).1 program read⟩

end YalSyntax
