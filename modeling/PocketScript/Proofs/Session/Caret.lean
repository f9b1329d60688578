import PocketScript.Proofs.Lint.Reported
import PocketScript.Proofs.Scanning.Places
import PocketScript.Proofs.Session.CodeFrame

/-!
# What the caret is under

A report quotes a line of source and puts a caret under a column of it. The
column was counted by the scanner, in the source as it was; the line is cut out
of the source again, loses the carriage returns at its end, and if it turned out
too short the caret would be brought back to it.

For a source that is run in a fresh session none of this goes wrong. Every fault
stands at a place of the source: where a character starts no token, where the
parser came upon a token, or where the token stands that the evaluator raised the
fault at. The last of these is known from `Blame.runSource_ends`, with the
property of sites that the source itself writes them, because a fresh session
binds no functions of others. At a place the character under the caret is the
first of what the fault is about (`Lexicon.Place.shown`), and only a fault at the
end of the source is about nothing that can be shown.

## Main definitions

* `Fault.pos?`: The position of a fault.
* `Fault.StartsWith`: The first character of what a fault is about.
* `Fault.IsAtEnd`: A fault that is about the end of the source.
* `frameLines`: The lines of a code frame.

## Theorems

* `codeFrame_of_place`: The code frame at a place.
* `fault_of_runSource`: Which faults a source ends with.
* `caret_is_under_culprit`: What a report shows.
-/

namespace PocketScript

/-- The position of a fault. Only a fault of a host has none. -/
def Fault.pos? : Fault → Option Position
  | .lexical e => some e.pos
  | .grammar e => some e.pos
  | .runtime e => some e.pos
  | .plain _ => none

/-- The first character of what the fault of a source is about: the character
    that starts no token, the token that the parser found, or the token that the
    evaluator raised the fault at. -/
inductive Fault.StartsWith (source : Text) : Fault → Rune → Prop where
  | character {e : LexicalFault} {c : Rune} :
      Token.scan source = .error e → e.cause = .unexpectedCharacter → e.character = (c : Int) →
      StartsWith source (.lexical e) c
  | found {ts : List Token} {e : GrammarFault} {c : Rune} :
      Token.scan source = .ok ts → (parse ts).outcome = .error e → e.found ∈ ts →
      e.found.isEnd = false → e.found.lexeme.runes.head? = some c →
      StartsWith source (.grammar e) c
  | raised {ts : List Token} {e : RuntimeFault} {culprit : Token} {c : Rune} :
      Token.scan source = .ok ts → culprit ∈ ts → e.original.RaisedAt culprit →
      culprit.lexeme.runes.head? = some c → StartsWith source (.runtime e) c

/-- The fault of a source is about its end: a string is not closed there, or the
    parser found the token that ends the input. -/
inductive Fault.IsAtEnd (source : Text) : Fault → Prop where
  | unclosed {e : LexicalFault} :
      Token.scan source = .error e → e.cause = .unterminatedString → IsAtEnd source (.lexical e)
  | found {ts : List Token} {e : GrammarFault} :
      Token.scan source = .ok ts → (parse ts).outcome = .error e → e.found ∈ ts →
      e.found.isEnd = true → IsAtEnd source (.grammar e)

/-- What stands in front of a line of a code frame. -/
def gutter (label : Text) : Text := " " ++ label ++ " | "

/-- The lines of a code frame: where, the line of source, and a caret under a
    column of it. -/
def frameLines (number : Int) (shown : Text) (column : Nat) : List Text :=
  ["  --> line " ++ Text.decimal number ++ ", column " ++ Text.natural column,
    gutter (Text.decimal number) ++ shown,
    gutter (Text.spaces (Text.decimal number).length) ++ Text.spaces (column - 1) ++ "^"]

theorem length_gutter (label : Text) :
    (gutter (Text.spaces label.length)).length = (gutter label).length := by
  simp [gutter, Text.spaces]

/-- A code frame is made of its lines, if the source has the line. -/
theorem codeFrame_eq {source line : Text} {p : Position} (hsource : source ≠ []) (hp : 0 < p.line)
    (hline : source.lines[p.line.toNat - 1]? = some line) :
    codeFrame source p = Text.unlines (frameLines p.line line.dropTrailingReturns
      (min (max p.column.toNat 1) (line.dropTrailingReturns.runes.length + 1))) := by
  have hguard : ¬ (source.isEmpty = true ∨ p.line ≤ 0) := by
    rw [List.isEmpty_iff]
    rintro (hnil | hle)
    · exact hsource hnil
    · omega
  rw [codeFrame, if_neg hguard, hline, Text.runes, List.length_map]
  simp only [frameLines, Text.unlines, Text.join, gutter, List.append_assoc]
  rfl

/-- The code frame at a place shows the line that the place is on. -/
theorem codeFrame_of_place {source before rest : Text} (h : Lexicon.Place source before rest)
    (hsource : source ≠ []) : ∃ line,
    source.lines[(Position.behind before).line.toNat - 1]? = some line ∧
    codeFrame source (Position.behind before) =
      Text.unlines (frameLines (Position.behind before).line line.dropTrailingReturns
        (min (before.lastLine.runes.length + 1) (line.dropTrailingReturns.runes.length + 1))) := by
  have hindex : (Position.behind before).line.toNat - 1 = before.count Text.lineFeed := by
    rw [Position.line_behind]
    omega
  have hcolumn :
      max (Position.behind before).column.toNat 1 = before.lastLine.runes.length + 1 := by
    rw [Position.column_behind]
    omega
  rcases h.line with ⟨line, hline, _⟩
  rw [← hindex] at hline
  refine ⟨line, hline, ?_⟩
  rw [codeFrame_eq hsource (by rw [Position.line_behind]; omega) hline, hcolumn]

/-! ### Reports -/

theorem codeFrame_ne_nil_of_eq {frame : Text} {number : Int} {shown : Text} {column : Nat}
    (h : frame = Text.unlines (frameLines number shown column)) : frame.isEmpty = false := by
  rw [h]
  rfl

/-- What a report puts below the code frame: the calls of a running program. -/
def Fault.trail : Fault → List Text
  | .runtime e => [e.trace].filter fun t => !t.isEmpty
  | _ => []

/-- A report is its message, a code frame and the calls that were under way, if
    the fault has a position with a code frame and carries no other. -/
theorem report_eq {source frame : Text} {e : Fault} {p : Position} (hp : e.pos? = some p)
    (hframe : codeFrame source p = frame) (hshown : frame.isEmpty = false)
    (hcarried : ∀ f, e = .runtime f → f.codeFrame = frame) :
    e.report source = Text.unlines (e.message :: frame :: e.trail) := by
  cases e with
  | plain m => cases hp
  | lexical e =>
      have hpos : e.pos = p := Option.some.inj hp
      rw [Fault.report, Fault.reportUnder, hpos, hframe, Fault.stack, List.filter_cons, hshown]
      rfl
  | grammar e =>
      have hpos : e.pos = p := Option.some.inj hp
      rw [Fault.report, Fault.reportUnder, hpos, hframe, Fault.stack, List.filter_cons, hshown]
      rfl
  | runtime e =>
      rw [Fault.report, Fault.reportUnder, hcarried e rfl, if_neg (by rw [hshown]; decide),
        Fault.stack, List.filter_cons, hshown]
      rfl

/-! ### Faults of a run -/

/-- A source ends with a fault in its characters, a fault in its tokens, or a
    fault of the running program. -/
theorem fault_of_runSource {n : Nat} {source : Text} {s t : Session} {e : Fault}
    (h : runSource n source s = .fault e t) :
    (∃ f, Token.scan source = .error f ∧ e = .lexical f) ∨
    (∃ ts f, Token.scan source = .ok ts ∧ (parse ts).outcome = .error f ∧ e = .grammar f) ∨
    ∃ f, e = .runtime f := by
  cases n with
  | zero =>
      simp only [runSource] at h
      cases h
  | succ n =>
      simp only [runSource] at h
      cases hscan : Token.scan source with
      | error f =>
          rw [hscan] at h
          cases h
          exact .inl ⟨f, rfl, rfl⟩
      | ok ts =>
          rw [hscan] at h
          simp only at h
          cases hparse : (parse ts).outcome with
          | error f =>
              rw [hparse] at h
              cases h
              exact .inr (.inl ⟨ts, f, rfl, hparse, rfl⟩)
          | ok p =>
              rw [hparse] at h
              simp only at h
              generalize interpret n p _ = o at h
              cases o with
              | ok a u => cases h
              | starved => cases h
              | fault f u =>
                  cases h
                  exact .inr (.inr ⟨_, rfl⟩)

/-- An empty source ends without a fault. -/
theorem ne_nil_of_fault {n : Nat} {source : Text} {s t : Session} {e : Fault}
    (h : runSource n source s = .fault e t) : source ≠ [] := by
  rintro rfl
  have hscan : Token.scan [] = .ok [Token.endAt .start] := scanFrom_stop (gapAfter_nil false)
  have hparse : (parse [Token.endAt .start]).outcome = .ok [] := rfl
  rcases fault_of_runSource h with ⟨f, herror, _⟩ | ⟨ts, f, hok, herror, _⟩ | ⟨f, rfl⟩
  · rw [hscan] at herror
    cases herror
  · rw [hscan] at hok
    rw [← Except.ok.inj hok, hparse] at herror
    cases herror
  · cases n with
    | zero =>
        simp only [runSource] at h
        cases h
    | succ n =>
        simp only [runSource, hscan, hparse] at h
        rcases n with _ | _ | n <;> simp [interpret, execAll, Outcome.andThen] at h

/-- A fault of a source that is run in a fresh session stands at a place of the
    source, with the character that it is about or at the end. -/
theorem exists_place_of_fault {n : Nat} {source : Text} {clock : Clock} {muted logging : Bool}
    {e : Fault} {t : Session}
    (hrun : runSource n source (Session.fresh clock muted logging) = .fault e t) :
    ∃ before rest, Lexicon.Place source before rest ∧ e.pos? = some (Position.behind before) ∧
      (∀ f, e = .runtime f → f.codeFrame = codeFrame source (Position.behind before)) ∧
      ((∃ c, e.StartsWith source c ∧ rest.runes.head? = some c) ∨
        e.IsAtEnd source ∧ rest = []) := by
  rcases fault_of_runSource hrun with ⟨f, hscan, rfl⟩ | ⟨ts, f, hscan, hparse, rfl⟩ | ⟨f, rfl⟩
  · rcases Lexicon.place_of_scan_error hscan with ⟨before, rest, hplace, hpos, hcause⟩
    refine ⟨before, rest, hplace, congrArg some hpos, (fun _ hf => nomatch hf), ?_⟩
    rcases hcause with ⟨hcause, c, hc, hcharacter⟩ | ⟨hcause, hrest⟩
    · exact .inl ⟨c, .character hscan hcause hcharacter, hc⟩
    · exact .inr ⟨.unclosed hscan hcause, hrest⟩
  · have hmem := found_mem_of_parse_error (Lexicon.exists_isEnd_of_scan hscan) hparse
    rcases Lexicon.place_of_scan hscan hmem with ⟨before, rest, hplace, hof⟩
    refine ⟨before, rest, hplace, congrArg some hof.pos, (fun _ hf => nomatch hf), ?_⟩
    cases hend : f.found.isEnd with
    | true => exact .inr ⟨.found hscan hparse hmem hend, hof.ended hend⟩
    | false =>
        rcases hof.filled hend with ⟨c, hlexeme, hc⟩
        exact .inl ⟨c, .found hscan hparse hmem hend hlexeme, hc⟩
  · -- A fresh session binds no functions, so every site is written by this source.
    have hfresh : (Session.fresh clock muted logging).store.Holds
        (Blame.Sited (Site.WrittenIn source)) :=
      Session.holds_fresh clock muted logging rfl
    have hends := Blame.runSource_ends n (fun site hsite => hsite) hfresh
    rw [hrun] at hends
    rcases hends with ⟨⟨hframe, calls, culprit, hblames⟩, _⟩
    rcases hblames.site.scanned with ⟨ts, hscan, hmem, hopen⟩
    rcases Lexicon.place_of_scan hscan hmem with ⟨before, rest, hplace, hof⟩
    rcases hof.filled hopen with ⟨c, hlexeme, hc⟩
    have hpos : f.pos = Position.behind before := hblames.pos.symm.trans hof.pos
    rw [hpos] at hframe
    refine ⟨before, rest, hplace, congrArg some hpos, ?_, .inl ⟨c, ?_, hc⟩⟩
    · rintro g hg
      rw [← Fault.runtime.inj hg]
      exact hframe
    · exact .raised hscan hmem hblames.raised hlexeme

theorem unlines_flatten (first line : Text) (lines more : List Text) :
    Text.unlines (first :: Text.unlines (line :: lines) :: more) =
      Text.unlines (first :: (line :: lines ++ more)) := by
  simp only [Layout.unlines_cons, Layout.below, List.flatMap_cons, List.flatMap_append,
    List.cons_append, List.append_assoc]

/-- Whatever fault a source ends with in a fresh session, its report contains a
    code frame. The frame quotes the line of the fault without the carriage returns
    at its end, and puts a caret below it, behind a gutter as wide as that of the
    line. Above the caret is the first character of what the fault is about, in the
    column of the fault. If the fault is about the end of the source the caret is at
    most one past the end of the line. -/
theorem caret_is_under_culprit {n : Nat} {source : Text} {clock : Clock} {muted logging : Bool}
    {e : Fault} {t : Session}
    (hrun : runSource n source (Session.fresh clock muted logging) = .fault e t) :
    ∃ (p : Position) (line gutter margin : Text) (column : Nat) (trail : List Text),
      e.pos? = some p ∧ 0 < p.line ∧ source.lines[p.line.toNat - 1]? = some line ∧
      gutter = " " ++ Text.decimal p.line ++ " | " ∧
      margin = " " ++ Text.spaces (Text.decimal p.line).length ++ " | " ∧
      margin.length = gutter.length ∧
      e.report source = Text.unlines ([e.message,
        "  --> line " ++ Text.decimal p.line ++ ", column " ++ Text.natural column,
        gutter ++ line.dropTrailingReturns,
        margin ++ Text.spaces (column - 1) ++ "^"] ++ trail) ∧
      ((∃ c, e.StartsWith source c ∧ (column : Int) = p.column ∧
          line.dropTrailingReturns.runes[column - 1]? = some c) ∨
        e.IsAtEnd source ∧ 1 ≤ column ∧ column ≤ line.dropTrailingReturns.runes.length + 1) := by
  rcases exists_place_of_fault hrun with ⟨before, rest, hplace, hpos, hcarried, habout⟩
  rcases codeFrame_of_place hplace (ne_nil_of_fault hrun) with ⟨line, hline, hframe⟩
  have hreport := report_eq hpos rfl (codeFrame_ne_nil_of_eq hframe) hcarried
  rw [hframe, frameLines, unlines_flatten] at hreport
  refine ⟨Position.behind before, line, gutter (Text.decimal (Position.behind before).line),
    gutter (Text.spaces (Text.decimal (Position.behind before).line).length), _, e.trail, hpos, ?_,
    hline, rfl, rfl, length_gutter _, hreport, ?_⟩
  · rw [Position.line_behind]
    omega
  · rcases habout with ⟨c, hstarts, hc⟩ | ⟨hend, _⟩
    · rcases hplace.shown hc with ⟨line', hline', more, hshown⟩
      have hindex : (Position.behind before).line.toNat - 1 = before.count Text.lineFeed := by
        rw [Position.line_behind]
        omega
      rw [hindex, hline'] at hline
      rw [Option.some.inj hline] at hshown
      have hcolumn : min (before.lastLine.runes.length + 1)
          (line.dropTrailingReturns.runes.length + 1) = before.lastLine.runes.length + 1 := by
        rw [hshown, List.length_append, List.length_cons]
        omega
      refine .inl ⟨c, hstarts, ?_, ?_⟩
      · rw [hcolumn, Position.column_behind]
        omega
      · rw [hcolumn, hshown, Nat.add_sub_cancel, List.getElem?_append_right (Nat.le_refl _),
          Nat.sub_self]
        rfl
    · refine .inr ⟨hend, ?_, ?_⟩ <;> omega

/-- Two lines, the first of them empty, with a byte that spells nothing behind the face. -/
def subtractingSource : Text :=
  utf8 "\r\necho '😀" ++ [255] ++ utf8 "' - null;\r\n"

set_option maxRecDepth 4000 in
theorem subtracting_fails : ∃ e t,
    runSource 10 subtractingSource (Session.fresh {} false false) = .fault (.runtime e) t ∧
      e.pos = ⟨2, 11⟩ := by
  have hshown : (shownAt (runSource 10 subtractingSource (Session.fresh {} false false))).map
      (fun shown => shown.2.1) = some ⟨2, 11⟩ := by cbv
  rcases Option.map_eq_some_iff.mp hshown with ⟨⟨frame, p, frames⟩, hat, rfl⟩
  rcases exists_of_shownAt hat with ⟨e, t, hrun, _, hpos, _⟩
  exact ⟨e, t, hrun, hpos⟩

/-- The caret is under the minus, in the eleventh column. -/
theorem subtracting_shows_operator :
    ∃ e t, runSource 10 subtractingSource (Session.fresh {} false false) = .fault e t ∧
      ∃ (line gutter margin : Text) (trail : List Text),
        subtractingSource.lines[1]? = some line ∧ margin.length = gutter.length ∧
        e.report subtractingSource = Text.unlines ([e.message,
          "  --> line " ++ Text.decimal 2 ++ ", column " ++ Text.natural 11,
          gutter ++ line.dropTrailingReturns, margin ++ Text.spaces 10 ++ "^"] ++ trail) ∧
        e.StartsWith subtractingSource 45 ∧ line.dropTrailingReturns.runes[10]? = some 45 := by
  rcases subtracting_fails with ⟨e, t, hrun, hpos⟩
  rcases caret_is_under_culprit hrun with
    ⟨p, line, gutter, margin, column, trail, hp, _, hline, _, _, hwidth, hreport, habout⟩
  rw [Fault.pos?, hpos, Option.some.injEq] at hp
  subst hp
  have hrune : (subtractingSource.lines[1]?.bind fun l => l.dropTrailingReturns.runes[10]?) =
      some 45 := by decide +kernel
  have hline' : subtractingSource.lines[1]? = some line := hline
  rw [hline', Option.bind_some] at hrune
  rcases habout with ⟨c, hstarts, hcolumn, hc⟩ | ⟨hend, _⟩
  · have hcolumn' : column = 11 := Int.ofNat.inj hcolumn
    subst hcolumn'
    have hminus : c = 45 := Option.some.inj (hc.symm.trans hrune)
    subst hminus
    exact ⟨_, t, hrun, line, gutter, margin, trail, hline', hwidth, hreport, hstarts, hrune⟩
  · cases hend

end PocketScript
