import DesignSync.Markup.Tree
import DesignSync.Markup.ReadError
import DesignSync.Markup.Entity
import DesignSync.Markup.TextRun

/-!
Reading markup trees. Tag headers and the module around the root are read by tokens; attribute
strings, braced expressions and the text between tags are read character by character. Each reader
says that it moves on, so that reading ends on every source.
-/

namespace DesignSync.Markup

open Text

/-! ### Tokens -/

/-- The next token; nothing at the end of the source. -/
def peek (p : Place) : Except ReadError (Option (Lexed Token)) :=
  match lexFrom p with
  | none => .ok none
  | some x =>
    match x.token with
    | some t => .ok (some ⟨t, x.start, x.stop⟩)
    | none => .error (.noToken x.span)

theorem length_peek {p : Place} {x : Lexed Token} (h : peek p = .ok (some x)) :
    x.stop.rest.length < p.rest.length := by
  unfold peek at h
  split at h
  · simp at h
  · next y hy =>
    split at h
    · simp only [Except.ok.injEq, Option.some.injEq] at h
      subst h
      exact length_lexFrom hy
    · simp at h

theorem length_start_peek {p : Place} {x : Lexed Token} (h : peek p = .ok (some x)) :
    x.start.rest.length ≤ p.rest.length ∧ x.start.rest ≠ [] := by
  unfold peek at h
  split at h
  · simp at h
  · next y hy =>
    split at h
    · simp only [Except.ok.injEq, Option.some.injEq] at h
      subst h
      exact length_start_lexFrom hy
    · simp at h

/-- The next token, which has to be there. -/
def peekWanted (wanted : Wanted) (p : Place) : Except ReadError (Lexed Token) :=
  match peek p with
  | .error e => .error e
  | .ok none => .error (.endOfInput wanted)
  | .ok (some x) => .ok x

theorem length_peekWanted {w : Wanted} {p : Place} {x : Lexed Token}
    (h : peekWanted w p = .ok x) : x.stop.rest.length < p.rest.length := by
  unfold peekWanted at h
  split at h
  · simp at h
  · simp at h
  · next y hy => simp only [Except.ok.injEq] at h; exact h ▸ length_peek hy

theorem length_start_peekWanted {w : Wanted} {p : Place} {x : Lexed Token}
    (h : peekWanted w p = .ok x) : x.start.rest.length ≤ p.rest.length ∧ x.start.rest ≠ [] := by
  unfold peekWanted at h
  split at h
  · simp at h
  · simp at h
  · next y hy => simp only [Except.ok.injEq] at h; exact h ▸ length_start_peek hy

/-- The place behind a symbol that has to stand next. -/
def expect (s : Symbol) (p : Place) : Except ReadError Place :=
  match peekWanted (.symbol s) p with
  | .error e => .error e
  | .ok x =>
    if x.token = .symbol s then .ok x.stop
    else .error (.unexpected x.span (.symbol s) (some x.token))

theorem length_expect {s : Symbol} {p q : Place} (h : expect s p = .ok q) :
    q.rest.length < p.rest.length := by
  unfold expect at h
  split at h
  · simp at h
  · next x hx =>
    split at h
    · simp only [Except.ok.injEq] at h; exact h ▸ length_peekWanted hx
    · simp at h

/-- A name that has to stand next: an identifier or a keyword. -/
def readName (wanted : Wanted) (p : Place) : Except ReadError (String × Place) :=
  match peekWanted wanted p with
  | .error e => .error e
  | .ok x =>
    match x.token.name? with
    | some name => .ok (name, x.stop)
    | none => .error (.unexpected x.span wanted (some x.token))

theorem length_readName {w : Wanted} {p q : Place} {s : String}
    (h : readName w p = .ok (s, q)) : q.rest.length < p.rest.length := by
  unfold readName at h
  split at h
  · simp at h
  · next x hx =>
    split at h
    · simp only [Except.ok.injEq, Prod.mk.injEq] at h; exact h.2 ▸ length_peekWanted hx
    · simp at h

/-- The names that points join to the one before. -/
def readDotted (p : Place) : Except ReadError (String × Place) :=
  match _hx : peek p with
  | .error e => .error e
  | .ok (some ⟨.symbol .dot, _, q⟩) =>
    match _hn : readName .tagName q with
    | .error e => .error e
    | .ok (name, r) => (readDotted r).map fun (more, r) => ("." ++ name ++ more, r)
  | .ok _ => .ok ("", p)
termination_by p.rest.length
decreasing_by
  have h₁ := length_peek _hx
  have h₂ := length_readName _hn
  simp only at h₁
  omega

theorem length_readDotted_le {p q : Place} {s : String} (h : readDotted p = .ok (s, q)) :
    q.rest.length ≤ p.rest.length := by
  fun_induction readDotted p generalizing s with
  | case1 => simp at h
  | case2 => simp at h
  | case3 p _ r hx name q' hn ih =>
    cases hd : readDotted q' with
    | error e => simp [hd, Except.map] at h
    | ok v =>
      simp only [hd, Except.map, Except.ok.injEq, Prod.mk.injEq] at h
      have h₁ := length_peek hx
      have h₂ := length_readName hn
      have h₃ := ih (s := v.1) (by rw [hd, ← h.2])
      simp only at h₁
      omega
  | case4 => simp_all

/-- The name of a tag, such as `div` or `Card.Header`. -/
def readTagName (p : Place) : Except ReadError (String × Place) :=
  match readName .tagName p with
  | .error e => .error e
  | .ok (name, q) => (readDotted q).map fun (more, q) => (name ++ more, q)

theorem length_readTagName {p q : Place} {s : String} (h : readTagName p = .ok (s, q)) :
    q.rest.length < p.rest.length := by
  unfold readTagName at h
  split at h
  · simp at h
  · next name r hn =>
    cases hd : readDotted r with
    | error e => simp [hd, Except.map] at h
    | ok v =>
      simp only [hd, Except.map, Except.ok.injEq, Prod.mk.injEq] at h
      have h₁ := length_readName hn
      have h₂ := length_readDotted_le (s := v.1) (q := v.2) hd
      rw [← h.2]
      omega

/-! ### Characters -/

/-- How many characters a block comment takes behind its start, up to and with the next `*/`. -/
def blockSize? : List Char → Option Nat
  | [] => none
  | '*' :: '/' :: _ => some 2
  | _ :: cs => (blockSize? cs).map (· + 1)

/-- How many characters are blanks and comments. A block comment ends at the first `*/`, or with the
    source. -/
def gapSize (cs : List Char) : Nat :=
  match cs with
  | [] => 0
  | '/' :: '/' :: rest =>
    let size := runSize (· != '\n') rest
    2 + size + gapSize (rest.drop size)
  | '/' :: '*' :: rest =>
    match blockSize? rest with
    | some size => 2 + size + gapSize (rest.drop size)
    | none => 2 + rest.length
  | c :: rest => if isBlank c then 1 + gapSize rest else 0
termination_by cs.length
decreasing_by
  all_goals simp
  all_goals omega

/-- The place behind blanks and comments. -/
def skipGap (p : Place) : Place := p.skip (gapSize p.rest)

/-- How many characters a string with backslash escapes takes behind its first quote, up to and with
    the closing one. -/
def quotedSize (quote : Char) : List Char → Nat
  | [] => 0
  | ['\\'] => 1
  | '\\' :: _ :: cs => quotedSize quote cs + 2
  | c :: cs => if c = quote then 1 else quotedSize quote cs + 1

/-- How many characters there are behind a brace up to and with the one that closes it, with `depth`
    more open inside it. Braces in strings, templates and comments do not count. -/
def braceSize? (depth : Nat) (cs : List Char) : Option Nat :=
  match cs with
  | [] => none
  | '{' :: rest => (braceSize? (depth + 1) rest).map (1 + ·)
  | '}' :: rest =>
    match depth with
    | 0 => some 1
    | depth + 1 => (braceSize? depth rest).map (1 + ·)
  | '/' :: '/' :: rest =>
    let size := runSize (· != '\n') rest + 1
    (braceSize? depth (rest.drop size)).map (2 + size + ·)
  | '/' :: '*' :: rest =>
    match blockSize? rest with
    | some size => (braceSize? depth (rest.drop size)).map (2 + size + ·)
    | none => none
  | c :: rest =>
    let size := if c = '"' ∨ c = '\'' ∨ c = '\x60' then quotedSize c rest else 0
    (braceSize? depth (rest.drop size)).map (1 + size + ·)
termination_by cs.length
decreasing_by
  all_goals simp
  all_goals omega

/-- A braced expression, from its opening brace on. -/
def readBraced (p : Place) : Except ReadError (Braced × Place) :=
  match braceSize? 0 (p.rest.drop 1) with
  | none => .error (.endOfInput (.symbol .rightBrace))
  | some size =>
    let raw := String.ofList ((p.rest.drop 1).take (size - 1))
    let q := p.skip (size + 1)
    .ok (⟨raw, Expression.classify raw, p.spanTo q⟩, q)

theorem length_readBraced {p q : Place} {b : Braced} (hp : p.rest ≠ [])
    (h : readBraced p = .ok (b, q)) : q.rest.length < p.rest.length := by
  unfold readBraced at h
  split at h
  · simp at h
  · simp only [Except.ok.injEq, Prod.mk.injEq] at h
    have := List.length_pos_iff.2 hp
    rw [← h.2]
    simp only [Place.skip, List.length_drop]
    omega

/-! ### Tag headers -/

/-- The value of an attribute in quotes, from its first quote on. -/
def readQuotedValue (quote : Char) (p : Place) : Except ReadError (AttributeValue × Place) :=
  let body := p.rest.drop 1
  let size := runSize (· != quote) body
  if (body.drop size).isEmpty then .error (.endOfInput (.closingQuote quote))
  else .ok (.text (String.ofList (decodeEntities (body.take size))), p.skip (size + 2))

theorem length_readQuotedValue {quote : Char} {p q : Place} {v : AttributeValue}
    (h : readQuotedValue quote p = .ok (v, q)) : q.rest.length < p.rest.length := by
  simp only [readQuotedValue] at h
  split at h
  · simp at h
  · next hs =>
    simp only [Except.ok.injEq, Prod.mk.injEq] at h
    rw [← h.2]
    simp only [Place.skip, List.isEmpty_iff, List.drop_eq_nil_iff, List.length_drop] at hs ⊢
    omega

/-- The value of an attribute behind its equals sign. -/
def readAttributeValue (p : Place) : Except ReadError (AttributeValue × Place) :=
  let start := skipGap p
  match start.rest with
  | '"' :: _ => readQuotedValue '"' start
  | '\'' :: _ => readQuotedValue '\'' start
  | _ =>
    match peekWanted .attributeValue start with
    | .error e => .error e
    | .ok ⟨.symbol .leftBrace, q, _⟩ => (readBraced q).map fun (b, r) => (.braced b, r)
    | .ok x => .error (.unexpected x.span .textOrExpression (some x.token))

theorem length_readAttributeValue {p q : Place} {v : AttributeValue}
    (h : readAttributeValue p = .ok (v, q)) :
    q.rest.length < p.rest.length := by
  have hs : (skipGap p).rest.length ≤ p.rest.length := by simp [skipGap, Place.skip]
  unfold readAttributeValue at h
  simp only at h
  split at h
  · exact Nat.lt_of_lt_of_le (length_readQuotedValue h) hs
  · exact Nat.lt_of_lt_of_le (length_readQuotedValue h) hs
  · split at h
    · simp at h
    · next a _ hx =>
      have h₁ := length_start_peekWanted hx
      cases hr : readBraced a with
      | error e => simp [hr, Except.map] at h
      | ok w =>
        simp only [hr, Except.map, Except.ok.injEq, Prod.mk.injEq] at h
        have h₂ := length_readBraced (b := w.1) (q := w.2) h₁.2 hr
        have h₃ := h₁.1
        simp only at h₂ h₃
        rw [← h.2]
        omega
    · simp at h

/-- The name of an attribute; it may have two parts with a colon between them. -/
def readAttributeName (p : Place) : Except ReadError (String × Place) :=
  match readName .attributeName p with
  | .error e => .error e
  | .ok (name, q) =>
    match peek q with
    | .error e => .error e
    | .ok (some ⟨.symbol .colon, _, r⟩) =>
      (readName .attributeName r).map fun (more, r) => (name ++ ":" ++ more, r)
    | .ok _ => .ok (name, q)

theorem length_readAttributeName {p q : Place} {s : String}
    (h : readAttributeName p = .ok (s, q)) : q.rest.length < p.rest.length := by
  unfold readAttributeName at h
  split at h
  · simp at h
  · next name r hn =>
    have h₁ := length_readName hn
    split at h
    · simp at h
    · next _ t hx =>
      have h₂ := length_peek hx
      cases hm : readName .attributeName t with
      | error e => simp [hm, Except.map] at h
      | ok w =>
        simp only [hm, Except.map, Except.ok.injEq, Prod.mk.injEq] at h
        have h₃ := length_readName (s := w.1) (q := w.2) hm
        simp only at h₂
        rw [← h.2]
        omega
    · simp only [Except.ok.injEq, Prod.mk.injEq] at h
      rw [← h.2]
      exact h₁

/-- An attribute whose first token stands at `start`. -/
def readAttribute (start p : Place) : Except ReadError (Attribute × Place) :=
  match readAttributeName p with
  | .error e => .error e
  | .ok (name, q) =>
    match peek q with
    | .error e => .error e
    | .ok (some ⟨.symbol .equals, _, r⟩) =>
      (readAttributeValue r).map fun (value, r) => (⟨name, value, start.spanTo r⟩, r)
    | .ok _ => .ok (⟨name, .implicit, start.spanTo q⟩, q)

theorem length_readAttribute {start p q : Place} {a : Attribute}
    (h : readAttribute start p = .ok (a, q)) : q.rest.length < p.rest.length := by
  unfold readAttribute at h
  split at h
  · simp at h
  · next name r hn =>
    have h₁ := length_readAttributeName hn
    split at h
    · simp at h
    · next _ t hx =>
      have h₂ := length_peek hx
      cases hm : readAttributeValue t with
      | error e => simp [hm, Except.map] at h
      | ok w =>
        simp only [hm, Except.map, Except.ok.injEq, Prod.mk.injEq] at h
        have h₃ := length_readAttributeValue (v := w.1) (q := w.2) hm
        simp only at h₂
        rw [← h.2]
        omega
    · simp only [Except.ok.injEq, Prod.mk.injEq] at h
      rw [← h.2]
      exact h₁

/-- What a tag header holds behind the name of the tag. -/
structure HeaderEnd where
  attributes : List Attribute
  selfClosing : Bool

/-- Attributes up to the end of a tag header. -/
def readAttributes (p : Place) : Except ReadError (HeaderEnd × Place) :=
  match _hx : peekWanted .attributeOrEnd p with
  | .error e => .error e
  | .ok x =>
    match x.token with
    | .symbol .slash => (expect .rightAngle x.stop).map fun q => (⟨[], true⟩, q)
    | .symbol .rightAngle => .ok (⟨[], false⟩, x.stop)
    | .symbol .leftBrace => .error (.invalid x.span .spreadAttributes)
    | t =>
      if t.name?.isSome then
        match _ha : readAttribute x.start p with
        | .error e => .error e
        | .ok (a, q) =>
          (readAttributes q).map fun (rest, r) =>
            ({ rest with attributes := a :: rest.attributes }, r)
      else .error (.unexpected x.span .attributeName (some t))
termination_by p.rest.length
decreasing_by exact length_readAttribute _ha

theorem length_readAttributes {p q : Place} {e : HeaderEnd} (h : readAttributes p = .ok (e, q)) :
    q.rest.length < p.rest.length := by
  fun_induction readAttributes p generalizing e with
  | case1 => simp at h
  | case2 p x hx _ =>
    have h₁ := length_peekWanted hx
    cases hm : expect .rightAngle x.stop with
    | error e => simp [hm, Except.map] at h
    | ok r =>
      simp only [hm, Except.map, Except.ok.injEq, Prod.mk.injEq] at h
      have h₂ := length_expect hm
      rw [← h.2]
      omega
  | case3 p x hx _ =>
    simp only [Except.ok.injEq, Prod.mk.injEq] at h
    rw [← h.2]
    exact length_peekWanted hx
  | case4 => simp at h
  | case5 => simp at h
  | case6 p x hx _ r ha _ _ _ _ ih =>
    have h₁ := length_readAttribute ha
    cases hm : readAttributes r with
    | error e => simp [hm, Except.map] at h
    | ok w =>
      simp only [hm, Except.map, Except.ok.injEq, Prod.mk.injEq] at h
      have h₂ := ih (e := w.1) (by rw [hm, ← h.2])
      omega
  | case7 => simp at h

/-- A tag header behind its opening angle. -/
def readHeader (p : Place) : Except ReadError ((String × HeaderEnd) × Place) :=
  match readTagName p with
  | .error e => .error e
  | .ok (tag, q) => (readAttributes q).map fun (header, r) => ((tag, header), r)

theorem length_readHeader {p q : Place} {x : String × HeaderEnd} (h : readHeader p = .ok (x, q)) :
    q.rest.length < p.rest.length := by
  unfold readHeader at h
  split at h
  · simp at h
  · next tag r hn =>
    have h₁ := length_readTagName hn
    cases hm : readAttributes r with
    | error e => simp [hm, Except.map] at h
    | ok w =>
      simp only [hm, Except.map, Except.ok.injEq, Prod.mk.injEq] at h
      have h₂ := length_readAttributes (e := w.1) (q := w.2) hm
      rw [← h.2]
      omega

/-! ### Elements -/

/-- An element that has been opened: its header, and its children so far, the last one first. -/
structure OpenElement where
  start : Place
  tag : String
  attributes : List Attribute
  children : List Node

/-- The element with one more child. -/
def OpenElement.push (e : OpenElement) (n : Node) : OpenElement :=
  { e with children := n :: e.children }

/-- The finished element, which ends at `stop`. -/
def OpenElement.close (e : OpenElement) (stop : Place) : Tree :=
  ⟨⟨e.tag, e.attributes, false, e.start.spanTo stop⟩, e.children.reverse⟩

def isTextEnd (c : Char) : Bool := c == '<' || c == '{'

/-- A closing tag behind its `</`: the place behind it, if it closes the tag. -/
def readClosing (start : Place) (tag : String) (p : Place) : Except ReadError Place :=
  match readTagName p with
  | .error e => .error e
  | .ok (closed, q) =>
    match expect .rightAngle q with
    | .error e => .error e
    | .ok r =>
      if closed = tag then .ok r
      else .error (.invalid (start.spanTo r) (.mismatchedTag tag closed))

theorem length_readClosing {start p q : Place} {tag : String}
    (h : readClosing start tag p = .ok q) : q.rest.length < p.rest.length := by
  unfold readClosing at h
  split at h
  · simp at h
  · next closed r hn =>
    have h₁ := length_readTagName hn
    split at h
    · simp at h
    · next r' he =>
      have h₂ := length_expect he
      split at h
      · simp only [Except.ok.injEq] at h; rw [← h]; omega
      · simp at h

/-- Reads the rest of an element and of those around it, up to the end of the outermost one. -/
def readContent (outer : List OpenElement) (top : OpenElement) (p : Place) :
    Except ReadError (Tree × Place) :=
  match _hp : p.rest with
  | [] => .error (.endOfInput (.closingTag top.tag))
  | '<' :: '/' :: _ =>
    match _hc : readClosing p top.tag (p.skip 2) with
    | .error e => .error e
    | .ok q =>
      match outer with
      | [] => .ok (top.close q, q)
      | parent :: outer =>
        let t := top.close q
        readContent outer (parent.push (.element t.head t.children)) q
  | '<' :: _ =>
    match _hh : readHeader (p.skip 1) with
    | .error e => .error e
    | .ok ((tag, header), q) =>
      if header.selfClosing then
        readContent outer (top.push (.element ⟨tag, header.attributes, true, p.spanTo q⟩ [])) q
      else readContent (top :: outer) ⟨p, tag, header.attributes, []⟩ q
  | '{' :: _ =>
    match _hb : readBraced p with
    | .error e => .error e
    | .ok (b, q) => readContent outer (top.push (.braced b)) q
  | c :: cs =>
    let size := 1 + runSize (fun c => !isTextEnd c) cs
    let q := p.skip size
    let value := runText ((c :: cs).take size)
    if value.isEmpty then readContent outer top q
    else readContent outer (top.push (.text (String.ofList value) (p.spanTo q))) q
termination_by p.rest.length
decreasing_by
  · have := length_readClosing _hc
    simp only [Place.skip, List.length_drop] at this
    omega
  · have := length_readHeader _hh
    simp only [Place.skip, List.length_drop] at this
    omega
  · have := length_readHeader _hh
    simp only [Place.skip, List.length_drop] at this
    omega
  · exact length_readBraced (by simp [_hp]) _hb
  · simp only [_hp, Place.skip, List.length_drop, List.length_cons]; omega
  · simp only [_hp, Place.skip, List.length_drop, List.length_cons]; omega

/-- An element whose opening angle is the next token. -/
def readElement (p : Place) : Except ReadError (Tree × Place) :=
  match peekWanted .element p with
  | .error e => .error e
  | .ok x =>
    match readHeader x.stop with
    | .error e => .error e
    | .ok ((tag, header), q) =>
      if header.selfClosing then .ok (⟨⟨tag, header.attributes, true, x.start.spanTo q⟩, []⟩, q)
      else readContent [] ⟨x.start, tag, header.attributes, []⟩ q

/-! ### Documents -/

/-- The next token, passing over characters that start none. -/
def peekLenient (p : Place) : Option (Lexed Token) :=
  match _h : lexFrom p with
  | none => none
  | some x =>
    match x.token with
    | some t => some ⟨t, x.start, x.stop⟩
    | none => peekLenient (x.start.skip 1)
termination_by p.rest.length
decreasing_by
  obtain ⟨h₁, h₂⟩ := length_start_lexFrom _h
  have := List.length_pos_iff.2 h₂
  simp only [Place.skip, List.length_drop]
  omega

theorem length_peekLenient {p : Place} {x : Lexed Token} (h : peekLenient p = some x) :
    x.stop.rest.length < p.rest.length := by
  fun_induction peekLenient p with
  | case1 => simp at h
  | case2 p y hy t ht =>
    simp only [Option.some.injEq] at h
    subst h
    exact length_lexFrom hy
  | case3 p y hy ht ih =>
    have h₁ := (length_start_lexFrom hy).1
    have h₂ := ih h
    simp only [Place.skip, List.length_drop] at h₂
    omega

/-- The place behind the first `return` that is followed by a parenthesis or an opening angle. -/
def skipToReturn (p : Place) : Except ReadError Place :=
  match _h : peekLenient p with
  | none => .error .missingRoot
  | some x =>
    if x.token = .keyword .returnWord then
      match peek x.stop with
      | .error e => .error e
      | .ok (some ⟨.symbol .leftParen, _, _⟩) => .ok x.stop
      | .ok (some ⟨.symbol .leftAngle, _, _⟩) => .ok x.stop
      | .ok _ => skipToReturn x.stop
    else skipToReturn x.stop
termination_by p.rest.length
decreasing_by all_goals exact length_peekLenient _h

/-- The root element, which has to stand next. -/
def readRootElement (p : Place) : Except ReadError (Tree × Place) :=
  match peek p with
  | .error e => .error e
  | .ok (some ⟨.symbol .leftAngle, _, _⟩) => readElement p
  | .ok (some x) => .error (.unexpected x.span .element (some x.token))
  | .ok none => .error (.unexpected ⟨p.endOffset, p.endOffset⟩ .element none)

/-- The root element with or without parentheses around it. -/
def readRoot (p : Place) : Except ReadError Tree :=
  match peek p with
  | .error e => .error e
  | .ok (some ⟨.symbol .leftParen, _, q⟩) =>
    match readRootElement q with
    | .error e => .error e
    | .ok (tree, r) => (expect .rightParen r).map fun _ => tree
  | .ok _ => (readRootElement p).map (·.1)

/-- Reads a source: an element by itself, or a module that returns one. -/
def readTree (source : String) : Except ReadError Tree :=
  let start := skipGap (Place.start source.toList)
  match start.rest with
  | '<' :: _ => readRoot start
  | _ =>
    match skipToReturn start with
    | .error e => .error e
    | .ok p => readRoot p

end DesignSync.Markup
