import AnnotationChecker.Proofs.Token.InLine
import AnnotationChecker.Proofs.Statement.Composed
/-!
# Statements are read within their line

Every parser that a line is read with stays in that line, whether it succeeds or fails (`Parser.Whole.alike`). The
signature of a function and imports take the reserved word they start with unseen, so for these it matters that the
tokens do not start with the end of a line.
-/

namespace AnnotationChecker

open AnnotationChecker.Parser

namespace Parser

variable {α : Type} {ts : List Token} {p : Parser α} {c : Cursor}

theorem stringTail_extend (ts : List Token) (text : String) (depth : Nat) (prev : Span) (rest : List Token)
    (hr : HasLineEnd rest) :
    stringTail text prev depth (rest ++ ts) = extended ts (stringTail text prev depth rest) ∧
      SameLine rest (place (stringTail text prev depth rest)).rest := by
  fun_induction stringTail text prev depth rest with
  | case1 text prev next s rest ih =>
    obtain ⟨hext, hsame⟩ := ih (hr.of_cons rfl)
    exact ⟨by rw [List.cons_append, stringTail, hext], .cons rfl hsame⟩
  | case2 text prev rest hrest =>
    obtain ⟨t, us, rfl⟩ := hr.exists_cons
    refine ⟨?_, .refl _⟩
    rw [List.cons_append, stringTail]
    · rfl
    · intro next s us' h
      cases h
      exact hrest next s us rfl

theorem InLine.adjacentStrings (first : String) : InLine (Parser.adjacentStrings first) := by
  intro ts c hc
  obtain ⟨hext, hsame⟩ := stringTail_extend ts first c.depth c.prev c.rest hc
  exact ⟨hext, hsame⟩

theorem Alike.spanned (hc : HasLineEnd c.rest) (hp : Alike ts p p c) : Alike ts (spanned p) (spanned p) c := by
  refine .bind hc (InLine.here ts c hc) ?_
  rintro start c' ⟨⟩ -
  exact .andThen hc hp fun _ => .bind .prev fun _ => .pure _

/-- The token after the one at the cursor belongs to the line unless the one at the cursor ends it. -/
theorem Alike.seesNext (k : TokenKind) (hc : HasLineEnd c.rest) (hend : c.peek.kind.isLineEnd = false) :
    Alike ts (Expr.seesNext k) (Expr.seesNext k) c where
  extend := by
    have hnext : HasLineEnd c.advance.rest := (Cursor.sameLine_advance hend).hasLineEnd hc
    unfold Expr.seesNext
    rw [Cursor.advance_extend hc, Cursor.peek_extend hnext]
    rfl
  sameLine := .refl _

end Parser

/-! ## Imports -/

theorem Parser.InLine.importedName {name : Parser (String × Span)} (hname : InLine name) :
    InLine (AnnotationChecker.importedName name) :=
  .bind hname fun _ => .bind (.eat rfl) fun _ => .ite (.bind .identifier fun _ => .pure _) (.pure _)

/-- Every name but the last is followed by a comma, so the loop ends before its bound does. -/
theorem importLoop_alike {name : Parser (String × Span)} (hname : InLine name) (ts : List Token) (n m : Nat)
    (c : Cursor) (hc : HasLineEnd c.rest) (hn : c.rest.length ≤ n) (hm : c.rest.length ≤ m) :
    Alike ts (importLoop name n) (importLoop name m) c := by
  induction n generalizing m c with
  | zero =>
    have hpos := Cursor.length_advance_lt hc
    omega
  | succ n ih =>
    have hpos := Cursor.length_advance_lt hc
    obtain ⟨m, rfl⟩ : ∃ k, m = k + 1 := ⟨m - 1, by omega⟩
    rw [importLoop, importLoop]
    have hread := InLine.importedName hname ts c hc
    refine .bind hc hread fun _ c₁ h₁ hc₁ => .bind hc₁ (InLine.eat rfl ts c₁ hc₁) fun more c₂ hmore hc₂ => ?_
    cases more with
    | true =>
      have hlt : c₂.rest.length < c.rest.length := by
        have hle := (hread.sameLine_of_ok h₁).length_le
        have hlt := Cursor.length_advance_lt hc₁
        rw [eat_eq_ok_true hmore]
        omega
      refine .bind hc₂ (InLine.sees _ ts c₂ hc₂) ?_
      rintro closing c₃ ⟨⟩ -
      split
      · exact InLine.pure _ ts c₂ hc₂
      · exact ih m c₂ hc₂ (by omega) (by omega)
    | false => exact InLine.pure _ ts c₂ hc₂

theorem Parser.InLine.importNames {name : Parser (String × Span)} (hname : InLine name) :
    InLine (AnnotationChecker.importNames name) :=
  .of_bound (importLoop_alike hname)

/-! ## Everything that is put together -/

namespace Parser

variable {ι α : Type} {q p : Parser ι} {d m : Bool} {x y : Parser α} {ts : List Token} {c : Cursor}

theorem Basic.inLine (h : Basic x) : InLine x := by
  cases h with
  | pure a => exact .pure a
  | sees k => exact .sees k
  | reject code message => exact .reject code message
  | unexpected wanted => exact .unexpected wanted
  | eat hk => exact .eat hk
  | expect hk => exact .expect hk
  | identifier => exact .identifier
  | dottedName => exact .dottedName
  | adjacentStrings first => exact .adjacentStrings first

/-- A parser stays in its line if the one that it reads the inside with does. -/
theorem Composed.alike (h : Composed q p d m x y) (hp : InLine p) (hc : HasLineEnd c.rest)
    (hm : m = true → c.peek.kind.isLineEnd = false) : Alike ts y y c := by
  induction h generalizing ts c with
  | inner => exact hp ts c hc
  | basic h => exact h.inLine ts c hc
  | bind _ _ ih ihf => exact .bind hc (ih hc hm) fun a c' _ hc' => ihf a hc' nofun
  | look _ ihf =>
    refine .bind hc (InLine.peek ts c hc) ?_
    rintro k c' ⟨⟩ -
    exact ihf _ hc (by simp)
  | lookBehind _ ihf =>
    refine .bind hc (.seesNext _ hc (hm rfl)) ?_
    rintro b c' ⟨⟩ -
    exact ihf _ hc hm
  | take _ ih => exact .bind hc (.advance hc (hm rfl)) fun _ c' _ hc' => ih hc' nofun
  | named hk _ ihf =>
    refine InLine.bind .identifier (fun name => .bind (.eat hk) fun _ => .ite ?_ (.rejectAt _ _ _)) ts c hc
    exact fun ts c hc => ihf name hc nofun
  | spanned _ ih => exact .spanned hc (ih hc hm)
  | commaList _ ih => exact InLine.commaList (fun ts c hc => ih hc nofun) ts c hc
  | importNames _ ih => exact InLine.importNames (fun ts c hc => ih hc nofun) ts c hc
  | enter => exact InLine.enter ts c hc
  | levelled _ ih => exact .levelled (ih hc hm)
  | atLevel _ ih => exact .congr (ih c.depth hc hm) rfl rfl

theorem Composed.inLine (h : Composed q p d false x y) (hp : InLine p) : InLine y := fun _ _ hc => h.alike hp hc nofun

theorem Whole.alike (h : Whole m x) (hc : HasLineEnd c.rest) (hm : m = true → c.peek.kind.isLineEnd = false) :
    Alike ts x x c :=
  Composed.alike h (.pure ()) hc hm

theorem Whole.inLine (h : Whole false x) : InLine x := Composed.inLine h (.pure ())

end Parser

end AnnotationChecker
