import CssSyntax.Grammar.Value
import CssSyntax.Proofs.Token.Ending

/-! What strings and urls hold. Where a token ends says which of its bytes are content. Its value is
cut from the literal afterwards and goes by the bytes at the two ends alone, so it differs where a
backslash escapes the last of them. -/

namespace CssSyntax

namespace Bytes

/-- What delimited text encloses: all of it but a delimiter at its end that no backslash
escapes. -/
def enclosed (closing : UInt8) (text : Bytes) : Bytes :=
  if text.getLast? = some closing ∧ endsEscaping text.dropLast = false then text.dropLast else text

/-- The last byte looks like a delimiter, but a backslash escapes it. -/
def EndsEscaped (closing : UInt8) (text : Bytes) : Prop :=
  text.getLast? = some closing ∧ endsEscaping text.dropLast = true

instance (closing : UInt8) (text : Bytes) : Decidable (EndsEscaped closing text) :=
  inferInstanceAs (Decidable (_ ∧ _))

/-- Text up to its last byte that is no white space, or that a backslash escapes. -/
def stripEnd (escaped : Bool) : Bytes → Bytes
  | [] => []
  | byte :: rest =>
    let back := stripEnd (Byte.escapes escaped byte) rest
    if back.isEmpty && Byte.isTrimmed byte && !escaped then [] else byte :: back

/-- Text without the white space around it. What a backslash escapes is no white space. -/
def strip (text : Bytes) : Bytes := stripEnd false (text.dropWhile Byte.isTrimmed)

/-- A backslash escapes the first of the white space at the end. -/
def EndsInEscapedBlank (text : Bytes) : Prop :=
  ∃ front blank back, text = front ++ blank :: back ∧ endsEscaping front = true ∧
    ∀ byte ∈ blank :: back, Byte.isTrimmed byte = true

section Delimiters

variable {closing : UInt8} {text body : Bytes}

theorem enclosed_concat :
    enclosed closing (body ++ [closing]) =
      if endsEscaping body = false then body else body ++ [closing] := by
  simp [enclosed]

theorem endsEscaped_concat :
    EndsEscaped closing (body ++ [closing]) ↔ endsEscaping body = true := by
  simp [EndsEscaped]

/-- Dropping whatever looks like the delimiter leaves the content, but for an escaped one. -/
theorem dropDelimiter_eq_enclosed_iff :
    (if text.getLast? = some closing then text.dropLast else text) = enclosed closing text ↔
      ¬EndsEscaped closing text := by
  by_cases last : text.getLast? = some closing
  · obtain ⟨body, rfl⟩ := List.getLast?_eq_some_iff.1 last
    rw [if_pos last, List.dropLast_concat, enclosed_concat, endsEscaped_concat]
    cases endsEscaping body <;> simp
  · rw [if_neg last, enclosed, if_neg fun both => last both.1]
    exact iff_of_true rfl fun escaped => last escaped.1

end Delimiters

section Blanks

variable {text lead core front back : Bytes} {escaped : Bool}

theorem not_escapes_blank {byte : UInt8} (blank : Byte.isTrimmed byte = true) :
    Byte.escapes escaped byte = false := by
  have plain : byte ≠ Byte.backslash := by
    rintro rfl
    exact absurd blank (by decide)
  simp [Byte.escapes, plain]

theorem endsEscaping_blank_append (blank : ∀ byte ∈ lead, Byte.isTrimmed byte = true) :
    endsEscaping (lead ++ core) = endsEscaping core := by
  unfold endsEscaping
  rw [List.foldl_append]
  congr 1
  induction lead with
  | nil => rfl
  | cons byte rest ih =>
    obtain ⟨first, others⟩ := List.forall_mem_cons.1 blank
    rw [List.foldl_cons, not_escapes_blank first, ih others]

/-- What escapes the byte behind it ends with a backslash. -/
theorem getLast?_of_endsEscaping (escapes : endsEscaping text = true) :
    text.getLast? = some Byte.backslash := by
  rcases List.eq_nil_or_concat text with rfl | ⟨front, last, rfl⟩
  · exact absurd escapes Bool.false_ne_true
  · rw [List.concat_eq_append] at escapes ⊢
    unfold endsEscaping at escapes
    rw [List.foldl_append] at escapes
    have mark := (Bool.and_eq_true_iff.1 escapes).2
    rw [List.getLast?_concat, eq_of_beq mark]

theorem stripEnd_blank (blank : ∀ byte ∈ text, Byte.isTrimmed byte = true) :
    stripEnd false text = [] := by
  induction text with
  | nil => rfl
  | cons byte rest ih =>
    obtain ⟨first, others⟩ := List.forall_mem_cons.1 blank
    simp [stripEnd, not_escapes_blank first, ih others, first]

/-- Of white space at the end only a first byte that is escaped is kept. -/
theorem stripEnd_escaped_blank (blank : ∀ byte ∈ text, Byte.isTrimmed byte = true) :
    stripEnd true text = text.take 1 := by
  cases text with
  | nil => rfl
  | cons byte rest =>
    obtain ⟨first, others⟩ := List.forall_mem_cons.1 blank
    simp [stripEnd, not_escapes_blank first, stripEnd_blank others]

theorem stripEnd_append (escaped : Bool) (front back : Bytes) :
    stripEnd escaped (front ++ back) =
      if (stripEnd (front.foldl Byte.escapes escaped) back).isEmpty then stripEnd escaped front
      else front ++ stripEnd (front.foldl Byte.escapes escaped) back := by
  induction front generalizing escaped with
  | nil =>
    rw [List.nil_append, List.foldl_nil]
    cases stripEnd escaped back <;> rfl
  | cons byte rest ih =>
    rw [List.cons_append, stripEnd, ih, List.foldl_cons]
    split
    next => rw [stripEnd]
    next some =>
      have written : rest ++ stripEnd (rest.foldl Byte.escapes (Byte.escapes escaped byte)) back ≠
          [] :=
        List.append_ne_nil_of_right_ne_nil rest fun none => some (by rw [none]; rfl)
      simp [written]

/-- What does not end with white space is kept whole. -/
theorem stripEnd_of_ink (ink : ∀ byte ∈ text.getLast?, Byte.isTrimmed byte = false) :
    stripEnd escaped text = text := by
  rcases List.eq_nil_or_concat text with rfl | ⟨front, last, rfl⟩
  · rfl
  · rw [List.concat_eq_append] at ink ⊢
    have alone := ink last List.getLast?_concat
    rw [stripEnd_append]
    simp [stripEnd, alone]

/-- White space before and behind the core of a text, and none at the ends of the core. -/
structure Padded (text lead core back : Bytes) : Prop where
  whole : text = lead ++ core ++ back
  leading : ∀ byte ∈ lead, Byte.isTrimmed byte = true
  trailing : ∀ byte ∈ back, Byte.isTrimmed byte = true
  first : ∀ byte ∈ core.head?, Byte.isTrimmed byte = false
  last : ∀ byte ∈ core.getLast?, Byte.isTrimmed byte = false

theorem not_isTrimmed_head (text : Bytes) :
    ∀ byte ∈ (text.dropWhile Byte.isTrimmed).head?, Byte.isTrimmed byte = false := by
  intro byte first
  have stops := List.head?_dropWhile_not Byte.isTrimmed text
  rwa [Option.mem_def.1 first] at stops

theorem exists_padded (text : Bytes) : ∃ lead core back, Padded text lead core back := by
  generalize inner : text.dropWhile Byte.isTrimmed = rest
  refine ⟨text.takeWhile Byte.isTrimmed, rest.rdropWhile Byte.isTrimmed,
    rest.rtakeWhile Byte.isTrimmed, ?_, fun _ => List.mem_takeWhile_imp,
    fun _ => List.mem_rtakeWhile_imp, fun byte first => ?_, fun byte last => ?_⟩
  · rw [List.append_assoc, List.rdropWhile_append_rtakeWhile, ← inner,
      List.takeWhile_append_dropWhile]
  · obtain ⟨more, split⟩ := List.rdropWhile_prefix Byte.isTrimmed rest
    obtain ⟨others, core⟩ := List.head?_eq_some_iff.1 first
    have front : (text.dropWhile Byte.isTrimmed).head? = some byte := by
      rw [inner, ← split, core]
      rfl
    exact not_isTrimmed_head text byte front
  · obtain ⟨front, core⟩ := List.getLast?_eq_some_iff.1 last
    have some : rest.rdropWhile Byte.isTrimmed ≠ [] := by simp [core]
    have ink := List.rdropWhile_last_not Byte.isTrimmed rest some
    simpa [core] using ink

/-- What ends with a backslash that escapes has no white space at its end. -/
theorem padded_of_endsEscaping (escapes : endsEscaping front = true)
    (blank : ∀ byte ∈ back, Byte.isTrimmed byte = true) :
    Padded (front ++ back) (front.takeWhile Byte.isTrimmed) (front.dropWhile Byte.isTrimmed)
      back where
  whole := by rw [List.takeWhile_append_dropWhile]
  leading _ := List.mem_takeWhile_imp
  trailing := blank
  first := not_isTrimmed_head front
  last := by
    intro byte last
    have whole := List.takeWhile_append_dropWhile (p := Byte.isTrimmed) (l := front)
    have ends : front.getLast? = some byte := by
      rw [← whole, List.getLast?_append, Option.mem_def.1 last]
      rfl
    rw [getLast?_of_endsEscaping escapes] at ends
    obtain rfl := Option.some.inj ends
    rfl

namespace Padded

variable (padded : Padded text lead core back)
include padded

theorem dropWhile_eq : text.dropWhile Byte.isTrimmed = core ++ back ∨
    core = [] ∧ text.dropWhile Byte.isTrimmed = [] := by
  rw [padded.whole, List.append_assoc, List.dropWhile_append_of_pos padded.leading]
  cases inner : core with
  | nil => exact .inr ⟨rfl, by simpa using padded.trailing⟩
  | cons byte rest =>
    have ink := padded.first byte (by rw [inner]; rfl)
    exact .inl (by rw [List.cons_append, List.dropWhile_cons_of_neg (by simp [ink])])

theorem trim_eq : text.trim = core := by
  unfold trim
  rcases padded.dropWhile_eq with split | ⟨none, blank⟩
  · have behind : ∀ byte ∈ back.reverse, Byte.isTrimmed byte = true :=
      fun byte member => padded.trailing byte (List.mem_reverse.1 member)
    rw [split, List.reverse_append, List.dropWhile_append_of_pos behind]
    cases inner : core.reverse with
    | nil => simpa using inner.symm
    | cons byte rest =>
      have ink := padded.last byte (by rw [← List.head?_reverse, inner]; rfl)
      rw [List.dropWhile_cons_of_neg (by simp [ink]), ← inner, List.reverse_reverse]
  · rw [blank, none]
    rfl

theorem strip_eq : text.strip = if endsEscaping core then core ++ back.take 1 else core := by
  unfold strip
  rcases padded.dropWhile_eq with split | ⟨none, blank⟩
  · have kept : stripEnd false core = core := stripEnd_of_ink padded.last
    rw [split, stripEnd_append, kept]
    change (if (stripEnd (endsEscaping core) back).isEmpty then core
      else core ++ stripEnd (endsEscaping core) back) = _
    cases endsEscaping core with
    | false =>
      rw [stripEnd_blank padded.trailing]
      rfl
    | true =>
      rw [stripEnd_escaped_blank padded.trailing]
      cases back with
      | nil => simp
      | cons byte rest => rfl
  · rw [blank, none]
    rfl

/-- White space behind the core is escaped where the core ends with a backslash that escapes. -/
theorem endsInEscapedBlank_iff :
    text.EndsInEscapedBlank ↔ endsEscaping core = true ∧ back ≠ [] := by
  constructor
  · rintro ⟨front, blank, more, rfl, escapes, trailing⟩
    have other := padded_of_endsEscaping escapes trailing
    have same : core = front.dropWhile Byte.isTrimmed := padded.trim_eq.symm.trans other.trim_eq
    have escaping : endsEscaping core = true := by
      rw [same, ← endsEscaping_blank_append other.leading, List.takeWhile_append_dropWhile,
        escapes]
    refine ⟨escaping, ?_⟩
    rintro rfl
    have whole := padded.strip_eq.symm.trans other.strip_eq
    rw [← same, escaping] at whole
    simp at whole
  · rintro ⟨escapes, some⟩
    obtain ⟨blank, more, rfl⟩ := List.exists_cons_of_ne_nil some
    exact ⟨lead ++ core, blank, more, padded.whole,
      (endsEscaping_blank_append padded.leading).trans escapes, padded.trailing⟩

end Padded

/-- Trimming goes by the bytes alone, so it takes one too many where the first is escaped. -/
theorem trim_eq_strip_iff (text : Bytes) : text.trim = text.strip ↔ ¬text.EndsInEscapedBlank := by
  obtain ⟨lead, core, back, padded⟩ := exists_padded text
  rw [padded.trim_eq, padded.strip_eq, padded.endsInEscapedBlank_iff]
  cases endsEscaping core with
  | false => simp
  | true =>
    cases back with
    | nil => simp
    | cons byte rest => simp

instance (text : Bytes) : Decidable text.EndsInEscapedBlank :=
  decidable_of_iff (¬text.trim = text.strip) ((not_congr (trim_eq_strip_iff text)).trans not_not)

/-- An escaped delimiter at the end is content, so what is trimmed without it is too short. -/
theorem trim_ne_strip_concat {closing : UInt8} (ink : Byte.isTrimmed closing = false)
    (escapes : endsEscaping front = true) : front.trim ≠ (front ++ [closing]).strip := by
  have padded := padded_of_endsEscaping escapes (List.forall_mem_nil _)
  rw [List.append_nil] at padded
  have longer : Padded (front ++ [closing]) (front.takeWhile Byte.isTrimmed)
      (front.dropWhile Byte.isTrimmed ++ [closing]) [] := by
    refine ⟨?_, padded.leading, List.forall_mem_nil _, ?_, ?_⟩
    · rw [List.append_nil, ← List.append_assoc, List.takeWhile_append_dropWhile]
    · cases inner : front.dropWhile Byte.isTrimmed with
      | nil => simpa using ink
      | cons byte rest => simpa [inner] using padded.first
    · simpa using ink
  rw [padded.trim_eq, longer.strip_eq]
  simp

end Blanks

end Bytes

section Strings

/-- The content of a string is what its token encloses, unless an escaped quote is its last byte. -/
theorem StringLiteral.content_eq_iff (quote : UInt8) (inner : Bytes) :
    (ofLiteral (quote :: inner)).content = Bytes.enclosed quote inner ↔
      ¬Bytes.EndsEscaped quote inner :=
  Bytes.dropDelimiter_eq_enclosed_iff

/-- The string of a token tells its quote, and holds what stands behind that quote, without the
quote that closes it. Only a string that is not closed, and whose last byte is an escaped quote,
loses that byte. -/
theorem tokenize_stringContent {source : Bytes} {token : Token} (member : token ∈ tokenize source)
    (is : token.kind = .string) :
    ∃ quote rest inner, Byte.isQuote quote = true ∧
      source.drop token.start.offset = quote :: rest ∧ token.literal = quote :: inner ∧
      TextEnds quote (· = Byte.newline) rest inner ∧
      ((StringLiteral.ofLiteral token.literal).isSingleQuoted = true ↔
        quote = Byte.singleQuote) ∧
      ((StringLiteral.ofLiteral token.literal).content = Bytes.enclosed quote inner ↔
        ¬Bytes.EndsEscaped quote inner) := by
  obtain ⟨front, back, split⟩ := List.append_of_mem member
  obtain ⟨quote, rest, inner, isQuote, behind, literal, ends⟩ :=
    (tokenize_located split).endsRight.string is
  rw [literal]
  exact ⟨quote, rest, inner, isQuote, behind, rfl, ends, beq_iff_eq,
    StringLiteral.content_eq_iff quote inner⟩

/-- An escaped quote inside a string that is closed, and one that is broken off behind an escaped
backslash. -/
theorem tokenize_stringContent_escapes :
    ∃ closed broken, tokenize (utf8 "'a\\'b'\"c\\\\") = [closed, broken, .endOfInput ⟨1, 11, 10⟩] ∧
      StringLiteral.ofLiteral closed.literal = ⟨true, utf8 "a\\'b"⟩ ∧
      StringLiteral.ofLiteral broken.literal = ⟨false, utf8 "c\\\\"⟩ := by
  have tokens : tokenize (utf8 "'a\\'b'\"c\\\\") =
      [⟨.string, utf8 "'a\\'b'", ⟨1, 1, 0⟩⟩, ⟨.string, utf8 "\"c\\\\", ⟨1, 7, 6⟩⟩,
        .endOfInput ⟨1, 11, 10⟩] := by
    decide +kernel
  have content (quote : UInt8) (inner : Bytes) {token : Token}
      (member : token ∈ tokenize (utf8 "'a\\'b'\"c\\\\")) (is : token.kind = .string)
      (literal : token.literal = quote :: inner) (plain : ¬Bytes.EndsEscaped quote inner) :
      StringLiteral.ofLiteral token.literal =
        ⟨quote == Byte.singleQuote, Bytes.enclosed quote inner⟩ := by
    obtain ⟨_, _, _, -, -, same, -, single, iff⟩ := tokenize_stringContent member is
    obtain ⟨rfl, rfl⟩ := List.cons.inj (same.symm.trans literal)
    rw [← iff.2 plain, literal]
    rfl
  rw [tokens] at content
  refine ⟨_, _, tokens, ?_, ?_⟩
  · exact content Byte.singleQuote (utf8 "a\\'b'") List.mem_cons_self rfl rfl (by decide)
  · exact content Byte.doubleQuote (utf8 "c\\\\")
      (List.mem_cons_of_mem _ List.mem_cons_self) rfl rfl (by decide)

/-- A string is not closed by an escaped quote, but its value drops that quote. -/
theorem string_loses_escaped_quote :
    ¬∀ source, ∀ token ∈ tokenize source, token.kind = .string →
      ∀ quote inner, token.literal = quote :: inner →
        (StringLiteral.ofLiteral token.literal).content = Bytes.enclosed quote inner := by
  intro all
  have tokens : tokenize (utf8 "\"a\\\"") =
      [⟨.string, utf8 "\"a\\\"", ⟨1, 1, 0⟩⟩, .endOfInput ⟨1, 5, 4⟩] := by
    decide +kernel
  have kept := all _ _ (tokens ▸ List.mem_cons_self) rfl Byte.doubleQuote (utf8 "a\\\"") rfl
  exact absurd kept (by decide)

end Strings

section Urls

variable {word inner : Bytes}

theorem Value.ofUri_written (three : word.length = 3) :
    ofUri (word ++ Byte.openParen :: inner) =
      .function word [uriContent (Bytes.trim
        (if inner.getLast? = some Byte.closeParen then inner.dropLast else inner))] := by
  have name : (word ++ Byte.openParen :: inner).take 3 = word := by
    rw [← three, List.take_left]
  have rest : (word ++ Byte.openParen :: inner).drop 3 = Byte.openParen :: inner := by
    rw [← three, List.drop_left]
  unfold ofUri
  rw [name, rest]
  rfl

theorem Value.uriContent_eq_basic_iff {text other : Bytes} :
    uriContent text = .basic other ↔ text = other ∧ other.head?.any Byte.isQuote = false := by
  unfold uriContent
  split
  next quoted =>
    refine iff_of_false nofun ?_
    rintro ⟨rfl, plain⟩
    exact Bool.false_ne_true (plain.symm.trans quoted)
  next plain =>
    constructor
    · intro same
      obtain rfl := Value.basic.inj same
      exact ⟨rfl, Bool.eq_false_iff.2 plain⟩
    · rintro ⟨rfl, -⟩
      rfl

/-- The argument of a url is the text that its token encloses, without the white space around it,
unless an escape stands at the end of that text, or a quote at its start. -/
theorem Value.uriContent_eq_iff :
    uriContent (Bytes.trim
        (if inner.getLast? = some Byte.closeParen then inner.dropLast else inner)) =
        .basic (Bytes.enclosed Byte.closeParen inner).strip ↔
      ¬Bytes.EndsEscaped Byte.closeParen inner ∧
        ¬(Bytes.enclosed Byte.closeParen inner).EndsInEscapedBlank ∧
          (Bytes.enclosed Byte.closeParen inner).strip.head?.any Byte.isQuote = false := by
  rw [uriContent_eq_basic_iff]
  by_cases escaped : Bytes.EndsEscaped Byte.closeParen inner
  · refine iff_of_false ?_ fun all => all.1 escaped
    obtain ⟨body, rfl⟩ := List.getLast?_eq_some_iff.1 escaped.1
    have escapes := Bytes.endsEscaped_concat.1 escaped
    rw [if_pos escaped.1, List.dropLast_concat, Bytes.enclosed_concat, escapes]
    exact fun both => Bytes.trim_ne_strip_concat rfl escapes both.1
  · rw [Bytes.dropDelimiter_eq_enclosed_iff.2 escaped, Bytes.trim_eq_strip_iff]
    exact (and_iff_right escaped).symm

/-- The url of a token becomes a call by the name of its first three bytes, with one argument: the
text up to the parenthesis that closes it, or up to the end of the source, without the white space
around it. A byte of that text is lost where it is an escaped parenthesis that closes nothing or
escaped white space at the end, and a quote that stands first behind a form feed makes the argument
a string. -/
theorem tokenize_urlContent {source : Bytes} {token : Token} (member : token ∈ tokenize source)
    (is : token.kind = .uri) :
    ∃ word rest inner argument, Bytes.sameIgnoringCase word (utf8 "url") = true ∧
      source.drop token.start.offset = word ++ Byte.openParen :: rest ∧
      token.literal = word ++ Byte.openParen :: inner ∧ token.literal.take 3 = word ∧
      TextEnds Byte.closeParen (fun _ => False) rest inner ∧
      Value.ofUri token.literal = .function word [argument] ∧
      (argument = .basic (Bytes.enclosed Byte.closeParen inner).strip ↔
        ¬Bytes.EndsEscaped Byte.closeParen inner ∧
          ¬(Bytes.enclosed Byte.closeParen inner).EndsInEscapedBlank ∧
            (Bytes.enclosed Byte.closeParen inner).strip.head?.any Byte.isQuote = false) := by
  obtain ⟨front, back, split⟩ := List.append_of_mem member
  obtain ⟨word, rest, inner, url, behind, literal, -, ends⟩ :=
    (tokenize_located split).endsRight.url is
  have three : word.length = 3 := by
    have same := congrArg List.length (eq_of_beq url)
    rwa [Bytes.lower, Bytes.lower, List.length_map, List.length_map] at same
  have name : token.literal.take 3 = word := by
    rw [literal, ← three, List.take_left]
  have value : Value.ofUri token.literal = _ := literal ▸ Value.ofUri_written three
  exact ⟨word, rest, inner, _, url, behind, literal, name, ends, value, Value.uriContent_eq_iff⟩

/-- An escaped parenthesis that closes nothing, and white space behind an escaped backslash. -/
theorem tokenize_urlContent_escapes :
    ∃ token, tokenize (utf8 "URL(\t\\) a\\\\ )") = [token, .endOfInput ⟨1, 14, 13⟩] ∧
      Value.ofUri token.literal = .function (utf8 "URL") [.basic (utf8 "\\) a\\\\")] := by
  have tokens : tokenize (utf8 "URL(\t\\) a\\\\ )") =
      [⟨.uri, utf8 "URL(\t\\) a\\\\ )", ⟨1, 1, 0⟩⟩, .endOfInput ⟨1, 14, 13⟩] := by
    decide +kernel
  refine ⟨_, tokens, ?_⟩
  obtain ⟨word, rest, inner, argument, -, -, literal, name, -, value, content⟩ :=
    tokenize_urlContent (tokens ▸ List.mem_cons_self) rfl
  obtain rfl : utf8 "URL" = word := name
  change utf8 "URL" ++ Byte.openParen :: utf8 "\t\\) a\\\\ )" = _ at literal
  obtain rfl := (List.cons.inj (List.append_cancel_left literal)).2
  rw [value, content.2 (by decide)]
  rfl

/-- A url that is not closed by an escaped parenthesis loses it. -/
theorem url_loses_escaped_parenthesis :
    ¬∀ source, ∀ token ∈ tokenize source, token.kind = .uri →
      ∀ word inner, token.literal = word ++ Byte.openParen :: inner → word.length = 3 →
        Value.ofUri token.literal =
          .function word [.basic (Bytes.enclosed Byte.closeParen inner).strip] := by
  intro all
  have tokens : tokenize (utf8 "url(a\\)") =
      [⟨.uri, utf8 "url(a\\)", ⟨1, 1, 0⟩⟩, .endOfInput ⟨1, 8, 7⟩] := by
    decide +kernel
  have kept := all _ _ (tokens ▸ List.mem_cons_self) rfl (utf8 "url") (utf8 "a\\)") rfl rfl
  change Value.ofUri (utf8 "url" ++ Byte.openParen :: utf8 "a\\)") = _ at kept
  rw [Value.ofUri_written rfl] at kept
  have bytes := (Value.uriContent_eq_basic_iff.1 (List.cons.inj (Value.function.inj kept).2).1).1
  exact absurd bytes (by decide)

end Urls

end CssSyntax
