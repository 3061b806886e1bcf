import AccessPolicy.Proofs.Rule.Spelling
import Mathlib.Data.List.Chain

/-! # Writings of rule texts

A rule text writes a sequence of parentheses and words. Blanks stand around them as one
likes, and have to stand between two of them unless the first opens or the second closes.
However a sequence is written, its tokens are those of its lexemes, one by one. Every text is
such a writing, so nothing but blanks is lost: the texts of its tokens, with the quotation
marks put back, are the text without its blanks.
-/

namespace AccessPolicy.Rule

/-- A word with no parenthesis to detach. -/
structure Word where
  chars : List Char
  present : chars ≠ []
  blankFree : Text.BlankFree chars
  noOpening : chars.head? ≠ some '('
  noClosing : chars.getLast? ≠ some ')'

/-- What stands between the blanks of a rule text. -/
inductive Lexeme where
  | openParen
  | closeParen
  | word (word : Word)

/-- The letters of an operator. -/
def Keyword.letters : Keyword → List Char
  | .and => ['a', 'n', 'd']
  | .or => ['o', 'r']
  | .not => ['n', 'o', 't']

namespace Lexeme

def chars : Lexeme → List Char
  | .openParen => ['(']
  | .closeParen => [')']
  | .word content => content.chars

/-- A lexeme is read as a token of some kind, which keeps some text and may carry a check.
A word that spells an operator in either case keeps its spelling, any other word in
quotation marks loses them, and every other word stands for a leaf. -/
inductive Reads : Lexeme → Token.Kind → String → Option Check → Prop where
  | openParen : Reads .openParen .openParen "(" none
  | closeParen : Reads .closeParen .closeParen ")" none
  | keyword {word : Word} {operator : Keyword} :
      word.chars.map Char.toLower = operator.letters →
        Reads (.word word) (.keyword operator) (String.ofList word.chars) none
  | quoted {word : Word} {mark : Char} {inner : List Char} :
      Text.isQuote mark = true → word.chars = mark :: (inner ++ [mark]) →
        Reads (.word word) .quoted (String.ofList inner) none
  | leaf {word : Word} :
      (∀ operator : Keyword, word.chars.map Char.toLower ≠ operator.letters) →
      ¬ Text.Wrapped word.chars →
        Reads (.word word) .leaf (String.ofList word.chars)
          (some (Check.ofWord (String.ofList word.chars)))

/-- The token of a lexeme. -/
def token : Lexeme → Token
  | .openParen => .openParen
  | .closeParen => .closeParen
  | .word content => Token.ofWord content.chars

end Lexeme

/-- A lexeme with the blanks in front of it. -/
structure Piece where
  gap : List Char
  lexeme : Lexeme
  blank : Text.isBlankText gap = true

namespace Piece

def chars (piece : Piece) : List Char :=
  piece.gap ++ piece.lexeme.chars

/-- A lexeme without blanks in front. -/
def bare (lexeme : Lexeme) : Piece :=
  ⟨[], lexeme, rfl⟩

/-- Blanks may be missing after an opening parenthesis and before a closing one. -/
def MayPrecede (first second : Piece) : Prop :=
  second.gap = [] → first.lexeme = .openParen ∨ second.lexeme = .closeParen

end Piece

/-- Lexemes one after another, with blanks between them and around them. -/
structure Writing where
  pieces : List Piece
  ending : List Char
  separated : pieces.IsChain Piece.MayPrecede
  blank : Text.isBlankText ending = true

namespace Writing

def lexemes (writing : Writing) : List Lexeme :=
  writing.pieces.map Piece.lexeme

def text (writing : Writing) : List Char :=
  writing.pieces.flatMap Piece.chars ++ writing.ending

end Writing

/-! ## The tokens of lexemes -/

theorem Keyword.ofWord?_eq_some_iff {word : List Char} {operator : Keyword} :
    ofWord? word = some operator ↔ word.map Char.toLower = operator.letters := by
  simp only [ofWord?]
  split
  · rename_i spelled
    cases operator <;> simp [spelled, letters]
  · split
    · rename_i spelled
      cases operator <;> simp [spelled, letters]
    · split
      · rename_i spelled
        cases operator <;> simp [spelled, letters]
      · cases operator <;> simp_all [letters]

namespace Lexeme

theorem reads_token (lexeme : Lexeme) :
    lexeme.Reads lexeme.token.kind lexeme.token.text lexeme.token.check? := by
  cases lexeme with
  | openParen => exact .openParen
  | closeParen => exact .closeParen
  | word content =>
      rw [token, Token.ofWord]
      cases spelled : Keyword.ofWord? content.chars with
      | some operator => exact .keyword (Keyword.ofWord?_eq_some_iff.mp spelled)
      | none =>
          have noKeyword : ∀ operator : Keyword,
              content.chars.map Char.toLower ≠ operator.letters := by
            intro operator same
            rw [Keyword.ofWord?_eq_some_iff.mpr same] at spelled
            contradiction
          cases unquoted : Text.unquote? content.chars with
          | none => exact .leaf noKeyword (Text.not_wrapped_of_unquote?_eq_none unquoted)
          | some inner =>
              obtain ⟨mark, inside, quote, wrapped⟩ := Text.wrapped_of_unquote? unquoted
              rw [wrapped, Text.unquote?_wrapped quote] at unquoted
              cases unquoted
              exact .quoted quote wrapped

theorem blankFree_chars (lexeme : Lexeme) : Text.BlankFree lexeme.chars := by
  cases lexeme with
  | openParen => exact List.forall_mem_singleton.mpr rfl
  | closeParen => exact List.forall_mem_singleton.mpr rfl
  | word content => exact content.blankFree

theorem ofChunk_chars (lexeme : Lexeme) : Token.ofChunk lexeme.chars = [lexeme.token] := by
  cases lexeme with
  | openParen => rfl
  | closeParen => rfl
  | word content =>
      obtain ⟨letters, present, -, noOpening, noClosing⟩ := content
      cases letters with
      | nil => contradiction
      | cons c rest =>
          have other : c ≠ '(' := fun same => noOpening (congrArg some same)
          rw [chars, Token.ofChunk, if_neg other, Token.ofTail,
            Token.detachClosing_of_getLast? noClosing]
          rfl

end Lexeme

/-! ## The tokens of a writing -/

namespace Token

theorem ofText_blank_append {gap : List Char} (blank : Text.isBlankText gap = true)
    (text : List Char) : ofText (gap ++ text) = ofText text := by
  induction gap with
  | nil => rfl
  | cons c rest ih =>
      obtain ⟨first, later⟩ := List.forall_mem_cons.mp (List.all_eq_true.mp blank)
      rw [List.cons_append, ofText, Text.words_cons_blank _ first]
      exact ih (List.all_eq_true.mpr later)

/-- A chunk in front of a writing is read by itself, if a blank or a closing parenthesis
follows it. -/
theorem ofText_append_pieces {chunk : List Char} (free : Text.BlankFree chunk)
    {pieces : List Piece} (separated : pieces.IsChain Piece.MayPrecede)
    (apart : ∀ piece ∈ pieces.head?, piece.gap = [] → chunk = [] ∨ piece.lexeme = .closeParen)
    {ending : List Char} (blank : Text.isBlankText ending = true) :
    ofText (chunk ++ (pieces.flatMap Piece.chars ++ ending)) =
      ofChunk chunk ++ pieces.map (·.lexeme.token) := by
  induction pieces generalizing chunk with
  | nil =>
      rw [List.flatMap_nil, List.nil_append, List.map_nil, List.append_nil]
      cases ending with
      | nil => rw [List.append_nil, ofText_of_blankFree free]
      | cons c rest =>
          obtain ⟨first, later⟩ := List.forall_mem_cons.mp (List.all_eq_true.mp blank)
          rw [ofText_append_blank chunk first, ofText_of_blankFree free,
            ofText_of_isBlankText (List.all_eq_true.mpr later), List.append_nil]
  | cons piece rest ih =>
      obtain ⟨follows, separated⟩ := List.isChain_cons.mp separated
      -- The lexeme and what follows it, without the blanks in front.
      have here : ofText (piece.lexeme.chars ++ (rest.flatMap Piece.chars ++ ending)) =
          piece.lexeme.token :: rest.map (·.lexeme.token) := by
        by_cases opens : piece.lexeme = .openParen
        · have later := ih Text.blankFree_nil separated fun _ _ _ => .inl rfl
          rw [opens]
          exact (ofText_cons_openParen _).trans (congrArg (Token.openParen :: ·) later)
        · rw [ih piece.lexeme.blankFree_chars separated, piece.lexeme.ofChunk_chars]
          · rfl
          · exact fun next member tight => .inr ((follows next member tight).resolve_left opens)
      rw [List.flatMap_cons, Piece.chars, List.map_cons, List.append_assoc, List.append_assoc]
      cases gap : piece.gap with
      | nil =>
          rw [List.nil_append]
          rcases apart piece rfl gap with rfl | closes
          · exact here
          · have closed : Text.BlankFree (chunk ++ [')']) :=
              List.forall_mem_append.mpr ⟨free, List.forall_mem_singleton.mpr rfl⟩
            have later := ih closed separated fun next member tight =>
              .inr ((follows next member tight).resolve_left (by rw [closes]; nofun))
            rw [ofChunk_append_closeParen, List.append_assoc, List.append_assoc] at later
            rw [closes]
            exact later
      | cons c others =>
          obtain ⟨first, later⟩ := List.forall_mem_cons.mp
            (List.all_eq_true.mp (gap ▸ piece.blank))
          rw [List.cons_append, ofText_append_blank chunk first, ofText_of_blankFree free,
            ofText_blank_append (List.all_eq_true.mpr later), here]

end Token

namespace Writing

/-- The tokens of a writing are those of its lexemes. -/
theorem ofText_text (writing : Writing) :
    Token.ofText writing.text = writing.lexemes.map Lexeme.token := by
  have whole := Token.ofText_append_pieces Text.blankFree_nil writing.separated
    (fun _ _ _ => .inl rfl) writing.blank
  rw [lexemes, List.map_map]
  exact whole

/-! ## Every text is a writing -/

theorem filter_text (writing : Writing) :
    writing.text.filter (fun c => !Text.isBlank c) = (writing.lexemes.map Lexeme.chars).flatten := by
  have blankless : ∀ {gap : List Char}, Text.isBlankText gap = true →
      gap.filter (fun c => !Text.isBlank c) = [] := by
    intro gap blank
    rw [List.filter_eq_nil_iff]
    intro c member
    simp [List.all_eq_true.mp blank c member]
  obtain ⟨pieces, ending, -, blank⟩ := writing
  rw [text, List.filter_append, blankless blank, List.append_nil, List.filter_flatMap, lexemes,
    List.map_map, ← List.flatMap_def]
  congr 1
  funext piece
  rw [Piece.chars, List.filter_append, blankless piece.blank, List.nil_append]
  apply List.filter_eq_self.mpr
  intro c member
  rw [piece.lexeme.blankFree_chars c member]
  rfl

theorem isChain_closing (first : Piece) (count : Nat) :
    (first :: List.replicate count (.bare .closeParen)).IsChain Piece.MayPrecede := by
  induction count generalizing first with
  | zero => exact .singleton first
  | succ count ih => exact List.isChain_cons_cons.mpr ⟨fun _ => .inr rfl, ih _⟩

theorem flatMap_closing (count : Nat) :
    (List.replicate count (.bare .closeParen)).flatMap Piece.chars = List.replicate count ')' := by
  induction count with
  | zero => rfl
  | succ count ih =>
      rw [List.replicate_succ, List.flatMap_cons, ih]
      rfl

/-- A chunk is written without any blanks. -/
theorem exists_pieces {chunk : List Char} (free : Text.BlankFree chunk) :
    ∃ pieces : List Piece, pieces.IsChain Piece.MayPrecede ∧
      pieces.flatMap Piece.chars = chunk := by
  induction chunk with
  | nil => exact ⟨[], .nil, rfl⟩
  | cons c rest ih =>
      by_cases opens : c = '('
      · subst opens
        obtain ⟨pieces, separated, spelled⟩ := ih (List.forall_mem_cons.mp free).2
        refine ⟨.bare .openParen :: pieces, separated.cons fun _ _ _ => .inl rfl, ?_⟩
        rw [List.flatMap_cons, spelled]
        rfl
      · obtain ⟨count, whole, -, ends⟩ := Token.detachClosing_spec (c :: rest)
        generalize (Token.detachClosing (c :: rest)).1 = word at whole ends
        cases word with
        | nil =>
            refine ⟨List.replicate count (.bare .closeParen), ?_, ?_⟩
            · exact (isChain_closing (.bare .closeParen) count).of_cons
            · rw [flatMap_closing, whole, List.nil_append]
        | cons first inner =>
            have begins : (first :: inner).head? ≠ some '(' := by
              intro same
              rw [List.cons_append, List.cons.injEq] at whole
              exact opens (whole.1.trans (Option.some.inj same))
            have inside : Text.BlankFree (first :: inner) := by
              rw [whole] at free
              exact (List.forall_mem_append.mp free).1
            refine ⟨.bare (.word ⟨first :: inner, List.cons_ne_nil _ _, inside, begins, ends⟩) ::
              List.replicate count (.bare .closeParen), isChain_closing _ count, ?_⟩
            rw [List.flatMap_cons, flatMap_closing, whole]
            rfl

/-- A blank in front of a writing joins those that stand there. -/
theorem exists_afterBlank (writing : Writing) {c : Char} (blank : Text.isBlank c = true) :
    ∃ later : Writing, later.text = c :: writing.text ∧
      ∀ piece ∈ later.pieces.head?, piece.gap ≠ [] := by
  have extend : ∀ {gap : List Char}, Text.isBlankText gap = true →
      Text.isBlankText (c :: gap) = true := by
    intro gap blanks
    rw [Text.isBlankText, List.all_cons, blank, Bool.true_and]
    exact blanks
  obtain ⟨_ | ⟨first, rest⟩, ending, separated, blanks⟩ := writing
  · exact ⟨⟨[], c :: ending, .nil, extend blanks⟩, rfl, nofun⟩
  · have follows := List.isChain_cons.mp separated
    refine ⟨⟨⟨c :: first.gap, first.lexeme, extend first.blank⟩ :: rest, ending,
      List.isChain_cons.mpr follows, blanks⟩, rfl, ?_⟩
    rintro piece ⟨⟩
    exact List.cons_ne_nil _ _

theorem exists_text_eq (text : List Char) : ∃ writing : Writing, writing.text = text := by
  induction text using Text.wordInduction with
  | last chunk free =>
      obtain ⟨pieces, separated, spelled⟩ := exists_pieces free
      exact ⟨⟨pieces, [], separated, rfl⟩, (List.append_nil _).trans spelled⟩
  | next chunk c rest free blank ih =>
      obtain ⟨pieces, separated, spelled⟩ := exists_pieces free
      obtain ⟨writing, written⟩ := ih
      obtain ⟨later, after, apart⟩ := writing.exists_afterBlank blank
      refine ⟨⟨pieces ++ later.pieces, later.ending, ?_, later.blank⟩, ?_⟩
      · exact separated.append later.separated fun _ _ second member tight =>
          absurd tight (apart second member)
      · rw [text, List.flatMap_append, spelled, List.append_assoc, ← written, ← after]
        rfl

end Writing

/-- A text from which a token of some kind with some text was read: what the token keeps,
or that between two equal quotation marks. -/
def Token.Restores (token : Token) (source : List Char) : Prop :=
  if token.kind = .quoted then
    ∃ mark, Text.isQuote mark = true ∧ source = mark :: (token.text.toList ++ [mark])
  else source = token.text.toList

theorem Lexeme.restores_chars (lexeme : Lexeme) : lexeme.token.Restores lexeme.chars := by
  have reads := lexeme.reads_token
  unfold Token.Restores
  generalize lexeme.token.kind = kind at *
  generalize lexeme.token.text = text at *
  generalize lexeme.token.check? = check at *
  cases reads with
  | openParen => rfl
  | closeParen => rfl
  | keyword _ => exact String.toList_ofList.symm
  | quoted quote wrapped =>
      refine ⟨_, quote, ?_⟩
      rw [String.toList_ofList]
      exact wrapped
  | leaf _ _ => exact String.toList_ofList.symm

/-- **Tokens and layout.** However parentheses and words are written, one token is read for
each of them, in order, with the kind, the text and the check that belong to it. Every text
is such a writing. With the quotation marks put back, the texts of its tokens are the text
without its blanks. -/
theorem tokens_of_writing :
    (∀ writing : Writing, List.Forall₂
      (fun lexeme token => lexeme.Reads token.kind token.text token.check?)
      writing.lexemes (Token.ofText writing.text)) ∧
    (∀ text : List Char, ∃ writing : Writing, writing.text = text) ∧
    ∀ text : List Char, ∃ sources : List (List Char),
      List.Forall₂ Token.Restores (Token.ofText text) sources ∧
        sources.flatten = text.filter fun c => !Text.isBlank c := by
  refine ⟨fun writing => ?_, Writing.exists_text_eq, fun text => ?_⟩
  · rw [writing.ofText_text, List.forall₂_map_right_iff, List.forall₂_same]
    exact fun lexeme _ => lexeme.reads_token
  · obtain ⟨writing, rfl⟩ := Writing.exists_text_eq text
    refine ⟨writing.lexemes.map Lexeme.chars, ?_, writing.filter_text.symm⟩
    rw [writing.ofText_text, List.forall₂_map_left_iff, List.forall₂_map_right_iff,
      List.forall₂_same]
    exact fun lexeme _ => lexeme.restores_chars

/-- Parentheses inside a word, and those at the wrong end of it, belong to the word. -/
example : Token.ofText "((a:f(x) )b:(\tAND 'c' )".toList =
    [.openParen, .openParen, .leaf "a:f(x", .closeParen, .leaf ")b:(", .keyword .and "AND",
      .quoted "c", .closeParen] := by
  decide +kernel

end AccessPolicy.Rule
