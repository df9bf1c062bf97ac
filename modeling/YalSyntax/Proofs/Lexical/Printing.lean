import YalSyntax.Proofs.Lexical.Filler

namespace YalSyntax

open Lexical

namespace Lexical

theorem Lexes.trans {before text middle rest reached left : List Char} {tokens others : List Token}
    (first : Lexes before text tokens middle rest)
    (second : Lexes middle rest others reached left) :
    Lexes before text (tokens ++ others) reached left := by
  induction first with
  | here => exact second
  | skip skips _ further => exact .skip skips (further second)
  | token takes _ further => exact .token takes (further second)

end Lexical

/-- A lexeme of a kind, and what is printed behind it: a blank, then any blanks and comments. -/
structure Print where
  kind : Token.Kind
  text : String
  gap : String
  isLexeme : IsLexeme kind text.toList
  isFiller : Filler gap.toList
  blank : ∃ c ∈ gap.toList.head?, isBlank c

namespace Print

def spelled (print : Print) : Token.Kind × String := (print.kind, print.text)

def chars (prints : List Print) : List Char :=
  prints.flatMap fun print => print.text.toList ++ print.gap.toList

def render (prints : List Print) : String := String.ofList (chars prints)

theorem takes (print : Print) (rest : List Char) :
    Takes print.kind print.text.toList (print.gap.toList ++ rest) := by
  obtain ⟨c, first, blank⟩ := print.blank
  obtain ⟨others, split⟩ := List.head?_eq_some_iff.mp first
  refine print.isLexeme.takes ?_
  rw [split]
  simpa using blank

theorem lexes_chars (prints : List Print) (before : List Char) :
    ∃ tokens, tokens.map Token.spelled = prints.map spelled ∧
      Lexes before (chars prints) tokens (before ++ chars prints) [] := by
  induction prints generalizing before with
  | nil => exact ⟨[], rfl, by simpa [chars] using Lexes.here⟩
  | cons print prints further =>
    obtain ⟨kind, text, gap, isLexeme, isFiller, blank⟩ := print
    have takes := Print.takes ⟨kind, text, gap, isLexeme, isFiller, blank⟩ (chars prints)
    obtain ⟨tokens, same, lexes⟩ := further (before ++ text.toList ++ gap.toList)
    have skips := (isFiller.lexes (before ++ text.toList) (chars prints)).trans lexes
    refine ⟨⟨kind, text, Position.behind before⟩ :: tokens, by rw [List.map_cons, same]; rfl, ?_⟩
    simpa [chars, String.ofList_toList] using Lexes.token takes skips

end Print

theorem spelledScan_of_lexes {source : String} {tokens : List Token}
    {items : List (Token.Kind × String)}
    (lexes : Lexes [] source.toList tokens ([] ++ source.toList) [])
    (same : tokens.map Token.spelled = items) :
    spelledScan (scan source) = .ok (items ++ [(.finish, "")]) := by
  rw [scan_of_lexes_to_end lexes, spelledScan, List.map_append, same]
  rfl

theorem spelledScan_render (prints : List Print) :
    spelledScan (scan (Print.render prints)) =
      .ok (prints.map Print.spelled ++ [(.finish, "")]) := by
  obtain ⟨tokens, same, lexes⟩ := Print.lexes_chars prints []
  have text : (Print.render prints).toList = Print.chars prints := String.toList_ofList
  rw [← text] at lexes
  exact spelledScan_of_lexes lexes same

theorem spelledScan_joined {items : List (Token.Kind × String)}
    (are : ∀ item ∈ items, IsLexeme item.1 item.2.toList) :
    spelledScan (scan (" ".intercalate (items.map (·.2)))) = .ok (items ++ [(.finish, "")]) := by
  obtain ⟨tokens, same, lexes⟩ := lexes_joined items are []
  have text : (" ".intercalate (items.map (·.2))).toList =
      [' '].intercalate (items.map (·.2.toList)) := by
    rw [String.toList_intercalate, List.map_map]
    rfl
  rw [← text] at lexes
  exact spelledScan_of_lexes lexes same

/-- What is printed is scanned back, in order and with the end behind it. And what is scanned from
any source can be printed: but for the end its tokens are lexemes of their kinds, so their texts
with single spaces between them are scanned as the same kinds and texts. -/
theorem scan_prints :
    (∀ prints : List Print, spelledScan (scan (Print.render prints)) =
      .ok (prints.map Print.spelled ++ [(.finish, "")])) ∧
    ∀ source tokens, scan source = .ok tokens →
      (∀ token ∈ tokens.dropLast, IsLexeme token.kind token.text.toList) ∧
      tokens.getLast?.map Token.spelled = some (.finish, "") ∧
      spelledScan (scan (" ".intercalate (tokens.dropLast.map (·.text)))) =
        .ok (tokens.map Token.spelled) := by
  refine ⟨spelledScan_render, fun source tokens scanned => ?_⟩
  obtain ⟨found, lexes, rfl⟩ := lexes_of_scan scanned
  have are : ∀ item ∈ found.map Token.spelled, IsLexeme item.1 item.2.toList :=
    scanned_of_lexes lexes
  have again := spelledScan_joined are
  rw [List.map_map] at again
  rw [List.dropLast_concat, List.getLast?_concat]
  refine ⟨fun token member => are _ (List.mem_map_of_mem member), rfl, ?_⟩
  rw [List.map_append]
  exact again

theorem scan_prints_commented :
    let tokens : List Token :=
      [⟨.plus, "+", ⟨1, 1⟩⟩, ⟨.increment, "++", ⟨1, 8⟩⟩, ⟨.finish, "", ⟨3, 1⟩⟩]
    (∃ prints, Print.render prints = "+ /*+*/++\n//x\n" ∧
      spelledScan (scan (Print.render prints)) =
        .ok [(.plus, "+"), (.increment, "++"), (.finish, "")]) ∧
    scan "+ /*+*/++\n//x\n" = .ok tokens ∧
      spelledScan (scan "+ ++") = .ok (tokens.map Token.spelled) := by
  intro tokens
  have block : Filler " /*+*/".toList := by
    rw [show " /*+*/".toList = [' ', '/', '*', '+', '*', '/'] by cbv]
    exact .blank rfl (@Filler.block ['+'] [] (by decide) .none)
  have line : Filler "\n//x\n".toList := by
    rw [show "\n//x\n".toList = ['\n', '/', '/', 'x', '\n'] by cbv]
    exact .blank rfl (@Filler.line ['x'] [] (by decide) .none)
  let plus : Print := ⟨.plus, "+", " /*+*/", .sign rfl, block, ⟨' ', by cbv, rfl⟩⟩
  let increment : Print := ⟨.increment, "++", "\n//x\n", .sign rfl, line, ⟨'\n', by cbv, rfl⟩⟩
  have printed : Print.render [plus, increment] = "+ /*+*/++\n//x\n" := by cbv
  have scanned : scan "+ /*+*/++\n//x\n" = .ok tokens := by cbv
  have joined : " ".intercalate (tokens.dropLast.map (·.text)) = "+ ++" := by cbv
  obtain ⟨render, rescan⟩ := scan_prints
  obtain ⟨-, -, again⟩ := rescan _ tokens scanned
  rw [joined] at again
  exact ⟨⟨[plus, increment], printed, render _⟩, scanned, again⟩

end YalSyntax
