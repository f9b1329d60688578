import Mathlib
import PocketScript.Program.Source
import PocketScript.Proofs.Lint.Reported
import PocketScript.Proofs.Server.Place
import PocketScript.Server.Diagnostic

/-!
# Diagnostics point at what they are about

A diagnostic has a line and a UTF-16 unit, which is how an editor finds its way.
What it is about is a place among the bytes of the document: where a character
stands that starts no token, where a token starts that was reported, or the end
of the document. So there are three ways of counting between the document and the
editor, by bytes, by characters and by units, and every diagnostic goes through
all of them.

That they agree is a matter of places. Everything that is ever reported stands at
one (`placed_of_mem_diagnose`), and at a place the line is the number of line
feeds in front of it and the unit is that of the characters behind the last of
these (`Diagnostic.of_place`).

## Main definitions

* `Noted`: What a diagnostic can be about, with its severity and its message.
* `Diagnostic.Placed`: A diagnostic at the place that it is about.

## Theorems

* `Diagnostic.of_place`: A diagnostic at a place.
* `placed_of_mem_diagnose`: Every diagnostic is at a place.
* `diagnostics_point_at_places`: The diagnostics of a document, and where they
  point.
-/

namespace PocketScript

/-- The place of a document, between the texts before and behind it, that a
    diagnostic of some severity and message is about. -/
inductive Noted (source : Text) : (before rest : Text) → Severity → (message : Text) → Prop where
  | character {before rest : Text} {e : LexicalFault} {c : Rune} :
      Token.scan source = .error e → e.cause = .unexpectedCharacter → e.character = (c : Int) →
      rest.runes.head? = some c → Noted source before rest .error e.message
  | unclosed {e : LexicalFault} :
      Token.scan source = .error e → e.cause = .unterminatedString →
      Noted source source [] .error e.message
  | fault {before rest : Text} {ts : List Token} {e : GrammarFault} :
      Token.scan source = .ok ts → (parse ts).outcome = .error e → e.found ∈ ts →
      Lexicon.Place.Of e.found before rest → Noted source before rest .error e.message
  | remark {before rest : Text} {ts : List Token} {p : List Stmt} {r : GrammarFault} {t : Token} :
      Token.scan source = .ok ts → (parse ts).outcome = .ok p → r ∈ (parse ts).remarks → t ∈ ts →
      r.pos = t.pos → Lexicon.Place.Of t before rest → Noted source before rest .warning r.detail
  | finding {before rest : Text} {ts : List Token} {p : List Stmt} {w : Warning} {t : Token} :
      Token.scan source = .ok ts → (parse ts).outcome = .ok p → w ∈ Lint.check p → t ∈ ts →
      w.pos = t.pos → Lexicon.Place.Of t before rest → Noted source before rest .warning w.message

/-- A diagnostic at a place: its line and its unit are those of the place. -/
theorem Diagnostic.of_place {source before rest : Text} (h : Lexicon.Place source before rest)
    (severity : Severity) (message : Text) :
    Diagnostic.of source (Position.behind before) severity message =
      ⟨before.count Text.lineFeed, Rune.lineUnits before.lastLine.runes, severity, message⟩ := by
  have hline : max 0 ((Position.behind before).line - 1) = (before.count Text.lineFeed : Int) := by
    rw [Position.line_behind]
    omega
  have hcolumn : max 0 ((Position.behind before).column - 1) =
      (before.lastLine.runes.length : Int) := by
    rw [Position.column_behind]
    omega
  rw [Diagnostic.of, hline, hcolumn, h.unitOffset_eq]

/-- A diagnostic is the one of a position, and there is a place with that
    position that it is about. -/
def Diagnostic.Placed (source : Text) (d : Diagnostic) : Prop :=
  ∃ before rest, Lexicon.Place source before rest ∧ Noted source before rest d.severity d.message ∧
    d = .of source (Position.behind before) d.severity d.message

section

variable {source : Text}

theorem placed_of_scan_error {e : LexicalFault} (h : Token.scan source = .error e) :
    (Diagnostic.of source e.pos .error e.message).Placed source := by
  rcases Lexicon.place_of_scan_error h with ⟨before, rest, hplace, hpos, hcause⟩
  rcases hcause with ⟨hcause, c, hc, hcharacter⟩ | ⟨hcause, rfl⟩
  · exact ⟨before, rest, hplace, .character h hcause hcharacter hc, by rw [← hpos]; rfl⟩
  · have hsource : source = before := hplace.source_eq.trans (List.append_nil before)
    subst hsource
    exact ⟨source, [], hplace, .unclosed h hcause, by rw [← hpos]; rfl⟩

variable {ts : List Token} (hscan : Token.scan source = .ok ts)

include hscan

theorem placed_of_parse_error {e : GrammarFault} (h : (parse ts).outcome = .error e) :
    (Diagnostic.of source e.pos .error e.message).Placed source := by
  have hmem := found_mem_of_parse_error (Lexicon.exists_isEnd_of_scan hscan) h
  rcases Lexicon.place_of_scan hscan hmem with ⟨before, rest, hplace, hof⟩
  have hpos : e.pos = Position.behind before := hof.pos
  exact ⟨before, rest, hplace, .fault hscan h hmem hof, by rw [← hpos]; rfl⟩

theorem placed_remark {p : List Stmt} (hp : (parse ts).outcome = .ok p) {r : GrammarFault}
    (hr : r ∈ (parse ts).remarks) :
    (Diagnostic.of source r.pos .warning r.detail).Placed source := by
  rcases remark_at_token (Lexicon.exists_isEnd_of_scan hscan) hr with ⟨t, ht, hpos⟩
  rcases Lexicon.place_of_scan hscan ht with ⟨before, rest, hplace, hof⟩
  exact ⟨before, rest, hplace, .remark hscan hp hr ht hpos hof, by rw [← hof.pos, ← hpos]; rfl⟩

theorem placed_finding {p : List Stmt} (hp : (parse ts).outcome = .ok p) {w : Warning}
    (hw : w ∈ Lint.check p) : (Diagnostic.of source w.pos .warning w.message).Placed source := by
  rcases finding_at_token (Lexicon.exists_isEnd_of_scan hscan) hp hw with ⟨t, ht, hpos⟩
  rcases Lexicon.place_of_scan hscan ht with ⟨before, rest, hplace, hof⟩
  exact ⟨before, rest, hplace, .finding hscan hp hw ht hpos hof, by rw [← hof.pos, ← hpos]; rfl⟩

end

/-- Every diagnostic of a document is at a place. -/
theorem placed_of_mem_diagnose {source : Text} {d : Diagnostic} (hd : d ∈ diagnose source) :
    d.Placed source := by
  rw [diagnose] at hd
  cases hscan : Token.scan source with
  | error e =>
      rw [hscan] at hd
      rw [List.mem_singleton.mp hd]
      exact placed_of_scan_error hscan
  | ok ts =>
      rw [hscan] at hd
      simp only at hd
      cases hparse : (parse ts).outcome with
      | error e =>
          rw [hparse] at hd
          rw [List.mem_singleton.mp hd]
          exact placed_of_parse_error hscan hparse
      | ok p =>
          rw [hparse] at hd
          rcases List.mem_append.mp hd with hd | hd
          · rcases List.mem_map.mp hd with ⟨r, hr, rfl⟩
            exact placed_remark hscan hparse hr
          · rcases List.mem_map.mp hd with ⟨w, hw, rfl⟩
            exact placed_finding hscan hparse hw

/-- A document that is no program has one diagnostic, and it is an error. -/
theorem diagnose_of_error {source : Text} (h : ∀ p, parseSource source ≠ .ok p) :
    ∃ d, diagnose source = [d] ∧ d.severity = .error := by
  rw [diagnose]
  cases hscan : Token.scan source with
  | error e => exact ⟨_, rfl, rfl⟩
  | ok ts =>
      simp only
      cases hparse : (parse ts).outcome with
      | error e => exact ⟨_, rfl, rfl⟩
      | ok p => exact absurd ((parseSource_eq_ok_iff hscan p).mpr hparse) (h p)

/-- A program has warnings only. -/
theorem severity_of_mem_diagnose {source : Text} {p : List Stmt} (h : parseSource source = .ok p)
    {d : Diagnostic} (hd : d ∈ diagnose source) : d.severity = .warning := by
  cases hscan : Token.scan source with
  | error e =>
      rw [parseSource, hscan] at h
      cases h
  | ok ts =>
      have hparse := (parseSource_eq_ok_iff hscan p).mp h
      rw [diagnose, hscan] at hd
      simp only [hparse] at hd
      rcases List.mem_append.mp hd with hd | hd
      · rcases List.mem_map.mp hd with ⟨r, _, rfl⟩
        rfl
      · rcases List.mem_map.mp hd with ⟨w, _, rfl⟩
        rfl

/-- A document that is no program has one diagnostic, of severity 1, and a
    program has diagnostics of severity 2 only. Each of them is about a place of
    the document, between two characters: its line is the number of line feeds in
    front of the place, and its unit is the number of UTF-16 units behind the
    last of them. The document has that line, and the line goes on at least up to
    there. -/
theorem diagnostics_point_at_places (source : Text) :
    ((∃ d, diagnose source = [d] ∧ d.severity.code = 1) ↔ ∀ p, parseSource source ≠ .ok p) ∧
    ((∃ p, parseSource source = .ok p) → ∀ d ∈ diagnose source, d.severity.code = 2) ∧
    ∀ d ∈ diagnose source, ∃ before rest, source = before ++ rest ∧ before.Splits rest ∧
      Noted source before rest d.severity d.message ∧
      d = .of source (Position.behind before) d.severity d.message ∧
      d.line = before.count Text.lineFeed ∧
      d.character = Rune.lineUnits before.lastLine.runes ∧
      ∃ line, source.lines[before.count Text.lineFeed]? = some line ∧
        before.lastLine.runes.length ≤ line.runes.length ∧
        Rune.lineUnits before.lastLine.runes ≤ Rune.lineUnits line.runes := by
  refine ⟨⟨?_, ?_⟩, ?_, ?_⟩
  · rintro ⟨d, hd, hcode⟩ p hp
    have hmem : d ∈ diagnose source := hd ▸ List.mem_singleton.mpr rfl
    rw [severity_of_mem_diagnose hp hmem] at hcode
    cases hcode
  · intro h
    rcases diagnose_of_error h with ⟨d, hd, hseverity⟩
    exact ⟨d, hd, by rw [hseverity]; rfl⟩
  · rintro ⟨p, hp⟩ d hd
    rw [severity_of_mem_diagnose hp hd]
    rfl
  · intro d hd
    rcases placed_of_mem_diagnose hd with ⟨before, rest, hplace, hnoted, heq⟩
    have hat := heq.trans (Diagnostic.of_place hplace d.severity d.message)
    rcases hplace.line with ⟨line, hline, hrunes⟩
    refine ⟨before, rest, hplace.source_eq, hplace.splits, hnoted, heq,
      congrArg Diagnostic.line hat, congrArg Diagnostic.character hat, line, hline, ?_, ?_⟩
    · rw [hrunes, List.length_append]
      exact Nat.le_add_right _ _
    · rw [hrunes, Rune.lineUnits_append]
      exact Nat.le_add_right _ _

/-- A line feed and `return '😀';𐐀;`, with a byte that spells nothing behind the
    face. The face and the letter take two units each. -/
def strandedSource : Text :=
  utf8 "\nreturn '😀" ++ [255] ++ utf8 "';𐐀;"

/-- What is found in it, a statement that cannot be reached. -/
def strandedDiagnostic : Diagnostic := ⟨1, 13, .warning, "unreachable statement"⟩

set_option maxRecDepth 4000 in
/-- The letter is found where an editor has it. -/
theorem strandedSource_points_at_letter :
    strandedDiagnostic ∈ diagnose strandedSource ∧
      ∃ before rest, strandedSource = before ++ rest ∧ before.Splits rest ∧
        Noted strandedSource before rest .warning strandedDiagnostic.message ∧
        before.count Text.lineFeed = 1 ∧ Rune.lineUnits before.lastLine.runes = 13 := by
  have hmem : (diagnose strandedSource).contains strandedDiagnostic = true := by cbv
  rw [List.contains_iff_mem] at hmem
  rcases (diagnostics_point_at_places strandedSource).2.2 _ hmem with
    ⟨before, rest, hsource, hsplits, hnoted, _, hline, hcharacter, _⟩
  refine ⟨hmem, before, rest, hsource, hsplits, hnoted, ?_, ?_⟩
  · exact Int.ofNat.inj hline.symm
  · exact Int.ofNat.inj hcharacter.symm

end PocketScript
