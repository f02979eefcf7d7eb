import ScopedNames.Proofs.Dialect.Form

set_option autoImplicit false

namespace ScopedNames.Dialect

open Lexeme (mark word)
open Terminal (marks)

variable {σ : Type}

section Stands

structure QualifiedName.Stands (q : QualifiedName σ) (allowed : List Terminal) : Prop where
  filled : q.names ≠ []
  words : ∀ name ∈ q.names, IsWord name.toList
  free : q.rooted = false → ∀ name ∈ q.names.head?, FreeOf allowed name.toList

def ArgumentValue.Stands : ArgumentValue σ → Prop
  | name q => q.Stands [.trueWord, .falseWord]
  | int _ | bool _ => True

structure Attribute.Stands (a : Attribute σ) : Prop where
  owner : ∀ owner ∈ a.owner, IsWord owner.toList
  name : IsWord a.name.toList
  arguments : ∀ argument ∈ a.arguments, argument.value.Stands

def AttributesStand (list : List (Attribute σ)) : Prop := ∀ a ∈ list, a.Stands

structure PathSegment.Stands (s : PathSegment σ) : Prop where
  word : IsWord s.name.toList
  free : s.isInline = false → FreeOf [.inlineWord] s.name.toList

def PathStands (allowed : List Terminal) : List (PathSegment σ) → Prop
  | [] => False
  | first :: others => IsWord first.name.toList ∧ FreeOf allowed first.name.toList ∧
      ∀ s ∈ others, s.Stands

end Stands

variable {p : Progress} {goal : Progress → Prop} {t : Terminal} {name : String}
variable {xs : List Lexeme} {φ : Phase}

namespace Progress

theorem reads_mark (known : t ∈ marks) (listed : t ∈ p.allowed)
    (fed : ∀ span, ∃ p', p.feed ⟨t, t.spelling.toList, span⟩ = .ok p' ∧ p'.Reads goal xs) :
    p.Reads goal (mark t :: xs) :=
  ⟨lexeme?_mark known listed, fed⟩

theorem reads_word (listed : .name ∈ p.allowed) (letters : IsWord name.toList)
    (free : FreeOf p.allowed name.toList)
    (fed : ∀ span, ∃ p', p.feed ⟨.name, name.toList, span⟩ = .ok p' ∧ p'.Reads goal xs) :
    p.Reads goal (word name :: xs) :=
  ⟨lexeme?_word.2 ⟨listed, letters, free⟩, fed⟩

end Progress

theorem FreeOf.mono {allowed allowed' : List Terminal} {text : List Char}
    (free : FreeOf allowed text) (fewer : ∀ k ∈ Terminal.keywords, k ∈ allowed' → k ∈ allowed) :
    FreeOf allowed' text :=
  fun k known listed => free k known (fewer k known listed)

theorem freeOf_of_disjoint {allowed : List Terminal} {text : List Char}
    (none : ∀ k ∈ Terminal.keywords, k ∉ allowed) : FreeOf allowed text :=
  fun k known listed => absurd listed (none k known)

theorem QualifiedName.Stands.mono {allowed allowed' : List Terminal} {q : QualifiedName σ}
    (stands : q.Stands allowed) (fewer : ∀ k ∈ Terminal.keywords, k ∈ allowed' → k ∈ allowed) :
    q.Stands allowed' :=
  ⟨stands.filled, stands.words, fun rooted name first => (stands.free rooted name first).mono fewer⟩

theorem intercalate_cons {α : Type} (m : α) (x : List α) (xs : List (List α)) :
    [m].intercalate (x :: xs) = x ++ xs.flatMap (m :: ·) := by
  induction xs generalizing x with
  | nil => simp
  | cons y ys ih => rw [List.intercalate_cons_cons, ih]; simp

namespace Progress

theorem reads_names {use : NameUse} {q : QualifiedName Span} {names : List String}
    (letters : ∀ name ∈ names, IsWord name.toList)
    (next : ∀ q' : QualifiedName Span, q'.bare = ⟨q.rooted, q.names ++ names, ()⟩ →
      (p.move (.nameRead use q')).Reads goal xs) :
    (p.move (.nameRead use q)).Reads goal
      (names.flatMap (fun name => [mark .doubleColon, word name]) ++ xs) := by
  -- From one name to the next only the path that has been read is another.
  induction names generalizing q with
  | nil => exact next q (by simp [QualifiedName.bare])
  | cons name names ih =>
    refine reads_mark (by decide) (by simp [allowed, move]) fun _ => ⟨_, rfl, ?_⟩
    refine reads_word (by simp [allowed, move]) (letters name List.mem_cons_self)
      (freeOf_of_disjoint (by simp [allowed, move, Terminal.keywords])) fun _ => ⟨_, rfl, ?_⟩
    refine ih (fun other member => letters other (List.mem_cons_of_mem _ member)) fun q' same => ?_
    rw [String.ofList_toList] at same
    exact next q' (by simpa [QualifiedName.add] using same)

inductive NameStart : Phase → NameUse → Prop where
  | directive (start : Place) (attributes : List (Attribute Span)) :
      NameStart (.usingNamespace start attributes) (.directive start attributes)
  | firstArgument (a : OpenAttribute) : NameStart (.argumentsOpen a) (.argument a)
  | nextArgument (a : OpenAttribute) : NameStart (.argumentComma a) (.argument a)

theorem reads_qualifiedName {use : NameUse} {q : QualifiedName Unit} (begins : NameStart φ use)
    (stands : q.Stands (p.move φ).allowed)
    (next : ∀ q' : QualifiedName Span, q'.bare = q → (p.move (.nameRead use q')).Reads goal xs) :
    (p.move φ).Reads goal (q.lexemes ++ xs) := by
  obtain ⟨rooted, names, place⟩ := q
  obtain ⟨filled, letters, free⟩ := stands
  obtain ⟨first, others, rfl⟩ := List.exists_cons_of_ne_nil filled
  have others' : ∀ name ∈ others, IsWord name.toList := fun name member =>
    letters name (List.mem_cons_of_mem _ member)
  have listed : .name ∈ (p.move φ).allowed ∧ .doubleColon ∈ (p.move φ).allowed := by
    cases begins <;> simp [allowed, move, argumentStarts]
  simp only [QualifiedName.lexemes, List.map_cons, intercalate_cons, List.flatMap_map]
  cases rooted with
  | false =>
    refine reads_word listed.1 (letters first List.mem_cons_self) (free rfl first rfl) fun span =>
      ⟨p.move (.nameRead use ⟨false, [String.ofList first.toList], span⟩), ?_, ?_⟩
    · cases begins <;> rfl
    · exact reads_names others' fun q' same => next q' (by simpa using same)
  | true =>
    refine reads_mark (by decide) listed.2 fun span => ⟨p.move (.nameRoot use span.start), ?_, ?_⟩
    · cases begins <;> rfl
    · refine reads_word (by simp [allowed, move]) (letters first List.mem_cons_self)
        (freeOf_of_disjoint (by simp [allowed, move, Terminal.keywords])) fun _ => ⟨_, rfl, ?_⟩
      exact reads_names others' fun q' same => next q' (by simpa using same)

end Progress

structure OpenAttribute.Holds (a : OpenAttribute) (list : AttributeList) (b : Attribute Unit) :
    Prop where
  before : a.before = list
  bare : (⟨a.owner, a.name, a.arguments.map Argument.bare, ()⟩ : Attribute Unit) = b

def Attribute.addArguments (b : Attribute Unit) (values : List (ArgumentValue Unit)) :
    Attribute Unit :=
  { b with arguments := b.arguments ++ values.map (⟨·, ()⟩) }

theorem Attribute.addArguments_nil (b : Attribute Unit) : b.addArguments [] = b := by
  simp [Attribute.addArguments]

theorem Attribute.addArguments_addArguments (b : Attribute Unit)
    (values others : List (ArgumentValue Unit)) :
    (b.addArguments values).addArguments others = b.addArguments (values ++ others) := by
  simp [Attribute.addArguments]

theorem digitsValue_written (zeros n : Nat) :
    digitsValue (List.replicate zeros '0' ++ Nat.toDigits 10 n) = n := by
  have dropped : Nat.ofDigitChars 10 (List.replicate zeros '0') 0 = 0 := by
    induction zeros with
    | zero => rfl
    | succ zeros ih => exact ih
  change Nat.ofDigitChars 10 _ 0 = n
  rw [Nat.ofDigitChars_append, dropped, Nat.ofDigitChars_ten_toDigits]

theorem exists_digit {c : Char} (digit : c.isDigit = true) : ∃ n < 10, c = Nat.digitChar n := by
  simp only [Char.isDigit, Bool.and_eq_true, decide_eq_true_eq, ge_iff_le,
    UInt32.le_iff_toNat_le] at digit
  have low : 48 ≤ c.toNat := digit.1
  have high : c.toNat ≤ 57 := digit.2
  have small : c.toNat - 48 < 10 := by omega
  refine ⟨c.toNat - 48, small, Char.toNat_inj.1 ?_⟩
  rw [Nat.toNat_digitChar_of_lt_ten small]
  omega

theorem digitsValue_snoc (front : List Char) {n : Nat} (small : n < 10) :
    digitsValue (front ++ [Nat.digitChar n]) = 10 * digitsValue front + n := by
  have value : (Nat.digitChar n).toNat - '0'.toNat = n := by
    rw [Nat.toNat_digitChar_of_lt_ten small, show '0'.toNat = 48 from rfl, Nat.add_sub_cancel_left]
  rw [digitsValue, List.foldl_append, List.foldl_cons, List.foldl_nil, value, digitsValue]

-- Digits are those of their value behind some zeros.
theorem exists_zeros {digits : List Char} (filled : digits ≠ [])
    (all : ∀ c ∈ digits, c.isDigit = true) :
    ∃ zeros, digits = List.replicate zeros '0' ++ Nat.toDigits 10 (digitsValue digits) := by
  induction digits using List.reverseRecOn with
  | nil => exact absurd rfl filled
  | append_singleton front c ih =>
    obtain ⟨n, small, rfl⟩ := exists_digit (all c (by simp))
    rw [digitsValue_snoc front small]
    have single : Nat.toDigits 10 n = [Nat.digitChar n] := Nat.toDigits_of_lt_base small
    by_cases empty : front = []
    · subst empty
      exact ⟨0, by simpa [digitsValue] using single.symm⟩
    · obtain ⟨zeros, same⟩ := ih empty fun d member => all d (List.mem_append_left _ member)
      rcases Nat.eq_zero_or_pos (digitsValue front) with zero | positive
      · rw [zero, Nat.toDigits_zero] at same
        refine ⟨zeros + 1, ?_⟩
        rw [zero, Nat.mul_zero, Nat.zero_add, single, List.replicate_succ', same]
      · refine ⟨zeros, ?_⟩
        rw [← Nat.toDigits_append_toDigits (by decide) positive small, single, ← List.append_assoc,
          ← same]

namespace Progress

inductive ArgumentStart : Phase → OpenAttribute → Prop where
  | first (a : OpenAttribute) : ArgumentStart (.argumentsOpen a) a
  | next (a : OpenAttribute) : ArgumentStart (.argumentComma a) a

inductive Argued : Phase → OpenAttribute → Prop where
  | value (a : OpenAttribute) : Argued (.argumentRead a) a
  | name (a : OpenAttribute) (q : QualifiedName Span) :
      Argued (.nameRead (.argument a) q) (a.addArgument (.name q) q.span)

theorem reads_argument {a : OpenAttribute} {list : AttributeList} {b : Attribute Unit}
    {argument : WrittenArgument} (begins : ArgumentStart φ a) (holds : a.Holds list b)
    (stands : argument.value.Stands)
    (next : ∀ ψ a', Argued ψ a' → a'.Holds list (b.addArguments [argument.value]) →
      (p.move ψ).Reads goal xs) :
    (p.move φ).Reads goal (argument.lexemes ++ xs) := by
  have listed : ∀ t ∈ argumentStarts, t ∈ (p.move φ).allowed := by
    cases begins <;> simp +contextual [allowed, move]
  have added (value : ArgumentValue Span) (span : Span) :
      (a.addArgument value span).Holds list (b.addArguments [value.bare]) := by
    obtain ⟨rfl, rfl⟩ := holds
    exact ⟨rfl, by simp [OpenAttribute.addArgument, Attribute.addArguments, Argument.bare]⟩
  obtain ⟨value, zeros⟩ := argument
  cases value with
  | int n =>
    refine ⟨lexeme?_digits (listed _ (by decide)) (by simp) ?_, fun span =>
      ⟨p.move (.argumentRead (a.addArgument (.int n) span)), ?_, ?_⟩⟩
    · intro c member
      rcases List.mem_append.1 member with zero | digit
      · rw [List.eq_of_mem_replicate zero]
        decide
      · exact Nat.isDigit_of_mem_toDigits (by decide) (by decide) digit
    · -- Fed with any text, since the digits of `n` would be unfolded.
      have fed (text : List Char) : (p.move φ).feed ⟨.int, text, span⟩ =
          .ok (p.move (.argumentRead (a.addArgument (.int (digitsValue text)) span))) := by
        cases begins <;> rfl
      rw [fed, digitsValue_written]
    · exact next _ _ (.value _) (added _ _)
  | bool v =>
    cases v with
    | true =>
      refine reads_mark (by decide) (listed _ (by decide)) fun span =>
        ⟨p.move (.argumentRead (a.addArgument (.bool true) span)), ?_, ?_⟩
      · cases begins <;> rfl
      · exact next _ _ (.value _) (added _ _)
    | false =>
      refine reads_mark (by decide) (listed _ (by decide)) fun span =>
        ⟨p.move (.argumentRead (a.addArgument (.bool false) span)), ?_, ?_⟩
      · cases begins <;> rfl
      · exact next _ _ (.value _) (added _ _)
  | name q =>
    have begins' : NameStart φ (.argument a) := by
      cases begins with
      | first => exact .firstArgument a
      | next => exact .nextArgument a
    have fewer : ∀ k ∈ Terminal.keywords, k ∈ (p.move φ).allowed →
        k ∈ [Terminal.trueWord, .falseWord] := by
      cases begins <;> simp [allowed, move, argumentStarts, Terminal.keywords]
    refine reads_qualifiedName begins' (stands.mono fewer) fun q' same => ?_
    exact next _ _ (.name a q') (same ▸ added (.name q') q'.span)

theorem reads_otherArguments {ψ : Phase} {a : OpenAttribute} {list : AttributeList}
    {b : Attribute Unit} {arguments : List WrittenArgument} (argued : Argued ψ a)
    (holds : a.Holds list b) (stand : ∀ argument ∈ arguments, argument.value.Stands)
    (next : ∀ a' : OpenAttribute, a'.Holds list (b.addArguments (arguments.map (·.value))) →
      (p.move (.argumentsClosed a')).Reads goal xs) :
    (p.move ψ).Reads goal
      (arguments.flatMap (mark .comma :: ·.lexemes) ++ mark .rightParen :: xs) := by
  -- The phase behind an argument depends on what it is, so it changes on the way.
  induction arguments generalizing ψ a b with
  | nil =>
    have closed (span : Span) : (p.move ψ).feed ⟨.rightParen, Terminal.rightParen.spelling.toList,
        span⟩ = .ok (p.move (.argumentsClosed { a with span := ⟨a.span.start, span.stop⟩ })) := by
      cases argued <;> rfl
    have listed : .rightParen ∈ (p.move ψ).allowed := by cases argued <;> simp [allowed, move]
    refine reads_mark (by decide) listed fun span => ⟨_, closed span, next _ ?_⟩
    rw [List.map_nil, Attribute.addArguments_nil]
    exact ⟨holds.before, holds.bare⟩
  | cons argument arguments ih =>
    have listed : .comma ∈ (p.move ψ).allowed := by cases argued <;> simp [allowed, move]
    have fed (span : Span) : (p.move ψ).feed ⟨.comma, Terminal.comma.spelling.toList, span⟩ =
        .ok (p.move (.argumentComma a)) := by
      cases argued <;> rfl
    simp only [List.flatMap_cons, List.cons_append, List.append_assoc]
    refine reads_mark (by decide) listed fun span => ⟨_, fed span, ?_⟩
    refine reads_argument (.next a) holds (stand _ List.mem_cons_self)
      fun ψ' a' argued' holds' => ?_
    refine ih argued' holds' (fun _ member => stand _ (List.mem_cons_of_mem _ member)) ?_
    intro a'' holds''
    rw [Attribute.addArguments_addArguments] at holds''
    exact next a'' holds''

theorem reads_arguments {a : OpenAttribute} {list : AttributeList} {b : Attribute Unit}
    {arguments : List WrittenArgument} (holds : a.Holds list b)
    (stand : ∀ argument ∈ arguments, argument.value.Stands)
    (next : ∀ a' : OpenAttribute, a'.Holds list (b.addArguments (arguments.map (·.value))) →
      (p.move (.argumentsClosed a')).Reads goal xs) :
    (p.move (.argumentsOpen a)).Reads goal
      ([mark .comma].intercalate (arguments.map WrittenArgument.lexemes) ++
        mark .rightParen :: xs) := by
  cases arguments with
  | nil =>
    refine reads_mark (by decide) (by simp [allowed, move]) fun _ => ⟨_, rfl, next _ ?_⟩
    rw [List.map_nil, Attribute.addArguments_nil]
    exact ⟨holds.before, holds.bare⟩
  | cons first others =>
    rw [List.map_cons, intercalate_cons, List.append_assoc, List.flatMap_map]
    refine reads_argument (.first a) holds (stand _ List.mem_cons_self) fun ψ a' argued holds' => ?_
    refine reads_otherArguments argued holds'
      (fun _ member => stand _ (List.mem_cons_of_mem _ member)) fun a'' holds'' => ?_
    rw [Attribute.addArguments_addArguments] at holds''
    exact next a'' holds''

end Progress

structure AttributeList.Holds (list : AttributeList) (site : Site) (bs : List (Attribute Unit)) :
    Prop where
  site : list.site = site
  bare : list.attributes.map Attribute.bare = bs

theorem OpenAttribute.Holds.close {a : OpenAttribute} {list : AttributeList} {b : Attribute Unit}
    {site : Site} {bs : List (Attribute Unit)} (holds : a.Holds list b)
    (front : list.Holds site bs) : a.close.Holds site (bs ++ [b]) := by
  obtain ⟨rfl, rfl⟩ := holds
  obtain ⟨rfl, rfl⟩ := front
  exact ⟨rfl, by simp [OpenAttribute.close, Attribute.bare]⟩

namespace Progress

inductive AttributeStart : Phase → AttributeList → Prop where
  | first (list : AttributeList) : AttributeStart (.specifierOpen list) list
  | next (list : AttributeList) : AttributeStart (.attributeComma list) list

inductive Titled : Phase → OpenAttribute → Prop where
  | plain (list : AttributeList) (name : String) (span : Span) :
      Titled (.attributeName list name span) ⟨list, none, name, [], span⟩
  | owned (a : OpenAttribute) : Titled (.attributeNamed a) a

inductive Ending : Phase → OpenAttribute → Prop where
  | titled {ψ : Phase} {a : OpenAttribute} (titled : Titled ψ a) : Ending ψ a
  | argued (a : OpenAttribute) : Ending (.argumentsClosed a) a

theorem reads_argumentList {ψ : Phase} {a : OpenAttribute} {list : AttributeList}
    {b : Attribute Unit} {arguments : Option (List WrittenArgument)} (titled : Titled ψ a)
    (holds : a.Holds list b) (stand : ∀ argument ∈ arguments.getD [], argument.value.Stands)
    (next : ∀ ψ' a', Ending ψ' a' →
      a'.Holds list (b.addArguments ((arguments.getD []).map (·.value))) →
      (p.move ψ').Reads goal xs) :
    (p.move ψ).Reads goal (argumentLexemes arguments ++ xs) := by
  cases arguments with
  | none =>
    refine next ψ a (.titled titled) ?_
    rwa [Option.getD_none, List.map_nil, Attribute.addArguments_nil]
  | some arguments =>
    have listed : .leftParen ∈ (p.move ψ).allowed := by cases titled <;> simp [allowed, move]
    have fed (span : Span) : (p.move ψ).feed ⟨.leftParen, Terminal.leftParen.spelling.toList,
        span⟩ = .ok (p.move (.argumentsOpen a)) := by
      cases titled <;> rfl
    simp only [argumentLexemes, List.cons_append, List.append_assoc, List.nil_append]
    refine reads_mark (by decide) listed fun span => ⟨_, fed span, ?_⟩
    exact reads_arguments holds stand fun a' holds' => next _ a' (.argued a') holds'

theorem reads_attribute {list : AttributeList} {site : Site} {bs : List (Attribute Unit)}
    {b : WrittenAttribute} (begins : AttributeStart φ list) (holds : list.Holds site bs)
    (stands : b.meaning.Stands)
    (next : ∀ ψ a, Ending ψ a → a.close.Holds site (bs ++ [b.meaning]) →
      (p.move ψ).Reads goal xs) :
    (p.move φ).Reads goal (b.lexemes ++ xs) := by
  obtain ⟨owner, name, arguments⟩ := b
  obtain ⟨owner', name', arguments'⟩ := stands
  have stand : ∀ argument ∈ arguments.getD [], argument.value.Stands := fun argument member =>
    arguments' _ (List.mem_map_of_mem member)
  have listed : .name ∈ (p.move φ).allowed := by cases begins <;> simp [allowed, move]
  have free {text : List Char} : FreeOf (p.move φ).allowed text := by
    cases begins <;> exact freeOf_of_disjoint (by simp [allowed, move, Terminal.keywords])
  have fed (text : List Char) (span : Span) : (p.move φ).feed ⟨.name, text, span⟩ =
      .ok (p.move (.attributeName list (String.ofList text) span)) := by
    cases begins <;> rfl
  have ends (ψ : Phase) (a : OpenAttribute) (titled : Titled ψ a)
      (open' : a.Holds list ⟨owner, name, [], ()⟩) :
      (p.move ψ).Reads goal (argumentLexemes arguments ++ xs) :=
    reads_argumentList titled open' stand fun ψ' a' ending holds' => by
      have closed := holds'.close holds
      refine next ψ' a' ending ?_
      simpa [Attribute.addArguments, WrittenAttribute.meaning, Function.comp_def] using closed
  cases owner with
  | none =>
    refine reads_word listed name' free fun span => ⟨_, fed _ span, ?_⟩
    exact ends _ _ (.plain list _ span) ⟨rfl, by simp⟩
  | some owner =>
    refine reads_word listed (owner' owner rfl) free fun span => ⟨_, fed _ span, ?_⟩
    refine reads_mark (by decide) (by simp [allowed, move]) fun _ => ⟨_, rfl, ?_⟩
    refine reads_word (by simp [allowed, move]) name'
      (freeOf_of_disjoint (by simp [allowed, move, Terminal.keywords])) fun _ => ⟨_, rfl, ?_⟩
    exact ends _ _ (.owned _) ⟨rfl, by simp⟩

end Progress

end ScopedNames.Dialect
