import NNeBPF.Library.HeaderTokens

/-!
# The definitions and arrays of a C header

What a C compiler takes from a header that holds nothing but object-like definitions, include guards
and initialised arrays of integers: the tokens are grouped into directives and declarations, and
these are taken in one after another.  A writer is followed step by step: each step adds text that
is read as certain entries, whatever is written afterwards.
-/

namespace HeaderText

/-! ## Directives and declarations -/

/-- `static const type name[length] = …`. -/
structure IntArray where
  type : List Char
  name : List Char
  length : ℕ
  values : List ℤ
deriving DecidableEq

inductive Entry
  | ifndef (name : List Char)
  | endif
  | define (name : List Char) (replacement : List Token)
  | array (declared : IntArray)
  | other (tokens : List Token)
deriving DecidableEq

def isDirective (tokens : List Token) : Bool := tokens.head? == some (.symbol '#')

/-- A directive ends with its line, a declaration at its semicolon. -/
def group : List Token → List Token → List (List Token)
  | pending, [] => if pending = [] then [] else [pending]
  | pending, token :: rest =>
    if token = .newline then
      if isDirective pending then pending :: group [] rest else group pending rest
    else if token = .symbol ';' ∧ ¬ isDirective pending then pending :: group [] rest
    else group (pending ++ [token]) rest

/-- What a comma or the closing brace makes of a value in front of it. -/
def separated (separator : Char) (rest : List Token) (value : Option ℤ)
    (values : Option (List ℤ)) : Option (List ℤ) :=
  if separator = ',' then value.bind fun value ↦ values.map (value :: ·)
  else if separator = '\x7d' ∧ rest = [] then value.map fun value ↦ [value]
  else none

def initializers : List Token → Option (List ℤ)
  | [.symbol c] => if c = '\x7d' then some [] else none
  | .word digits :: .symbol c :: rest =>
    separated c rest ((constant digits).map fun n ↦ (n : ℤ)) (initializers rest)
  | .symbol sign :: .word digits :: .symbol c :: rest =>
    if sign = '-' then
      separated c rest ((constant digits).map fun n ↦ -(n : ℤ)) (initializers rest)
    else none
  | _ => none

def parseDirective : List Token → Option Entry
  | [.word directive] => if directive = "endif".toList then some .endif else none
  | .word directive :: .word name :: replacement =>
    if directive = "define".toList then some (.define name replacement)
    else if directive = "ifndef".toList ∧ replacement = [] then some (.ifndef name)
    else none
  | _ => none

def parseDeclaration : List Token → Option Entry
  | storage :: qualifier :: .word type :: .word name :: opening :: .word size :: closing ::
      equals :: brace :: values =>
    if [storage, qualifier, opening, closing, equals, brace] = [.word "static".toList,
        .word "const".toList, .symbol '[', .symbol ']', .symbol '=', .symbol '\x7b'] then
      (constant size).bind fun length ↦
        (initializers values).map fun values ↦ .array ⟨type, name, length, values⟩
    else none
  | _ => none

def parse (tokens : List Token) : Entry :=
  (if isDirective tokens then parseDirective tokens.tail else parseDeclaration tokens).getD
    (.other tokens)

/-- The directives and declarations of a text. -/
def entries (text : List Char) : List Entry := (group [] (lex (.code []) text)).map parse

/-- The text holds these directives and declarations, whatever follows it. -/
def Reads (text : List Char) (found : List Entry) : Prop :=
  ∀ rest, entries (text ++ rest) = found ++ entries rest

theorem Reads.append {text text' : List Char} {found found' : List Entry} (h : Reads text found)
    (h' : Reads text' found') : Reads (text ++ text') (found ++ found') := by
  intro rest
  calc
    entries (text ++ text' ++ rest) = entries (text ++ (text' ++ rest)) := by
      rw [List.append_assoc]
    _ = found ++ entries (text' ++ rest) := h (text' ++ rest)
    _ = found ++ (found' ++ entries rest) := by rw [h' rest]
    _ = found ++ found' ++ entries rest := (List.append_assoc ..).symm

theorem Reads.entries_eq {text : List Char} {found : List Entry} (h : Reads text found) :
    entries text = found := by
  have hall := h []
  rw [List.append_nil] at hall
  rw [hall]
  exact List.append_nil found

/-- A token that ends neither a directive nor a declaration. -/
def Inner (token : Token) : Prop := token ≠ .newline ∧ token ≠ .symbol ';'

theorem group_inner {tokens : List Token} (hinner : ∀ token ∈ tokens, Inner token)
    (pending rest : List Token) :
    group pending (tokens ++ rest) = group (pending ++ tokens) rest := by
  induction tokens generalizing pending with
  | nil => rw [List.nil_append, List.append_nil]
  | cons token tokens ih =>
    obtain ⟨htoken, htokens⟩ := List.forall_mem_cons.mp hinner
    rw [List.cons_append, group, if_neg htoken.1, if_neg fun h ↦ htoken.2 h.1, ih htokens,
      List.append_assoc, List.singleton_append]

theorem reads_of_group {text : List Char} {tokens : List Token} {found : List Entry}
    (htext : Lexes text tokens)
    (hgroup : ∀ rest, (group [] (tokens ++ rest)).map parse = found ++ (group [] rest).map parse) :
    Reads text found := by
  intro rest
  calc
    entries (text ++ rest) = (group [] (tokens ++ lex (.code []) rest)).map parse := by
      rw [entries, htext rest]
    _ = found ++ entries rest := hgroup (lex (.code []) rest)

theorem reads_directive {text : List Char} (tokens : List Token) {entry : Entry}
    (htext : Lexes text (.symbol '#' :: tokens ++ [.newline]))
    (hinner : ∀ token ∈ tokens, Inner token) (hparse : parse (.symbol '#' :: tokens) = entry) :
    Reads text [entry] := by
  apply reads_of_group htext
  intro rest
  have hsharp : Inner (.symbol '#') := ⟨nofun, by decide⟩
  have hstart : isDirective (.symbol '#' :: tokens) = true := rfl
  have hgroup : group [] (.symbol '#' :: tokens ++ ([.newline] ++ rest)) =
      (.symbol '#' :: tokens) :: group [] rest := by
    rw [group_inner (List.forall_mem_cons.mpr ⟨hsharp, hinner⟩), List.nil_append,
      List.singleton_append, group, if_pos rfl, if_pos hstart]
  rw [List.append_assoc, hgroup, List.map_cons, hparse, List.singleton_append]

theorem reads_declaration {text : List Char} (tokens : List Token) {entry : Entry}
    (htext : Lexes text (tokens ++ [.symbol ';'])) (hinner : ∀ token ∈ tokens, Inner token)
    (hdirective : isDirective tokens = false) (hparse : parse tokens = entry) :
    Reads text [entry] := by
  apply reads_of_group htext
  intro rest
  have hgroup : group [] (tokens ++ ([.symbol ';'] ++ rest)) = tokens :: group [] rest := by
    rw [group_inner hinner, List.nil_append, List.singleton_append, group, if_neg nofun,
      if_pos ⟨rfl, Bool.eq_false_iff.mp hdirective⟩]
  rw [List.append_assoc, hgroup, List.map_cons, hparse, List.singleton_append]

theorem reads_blank {text : List Char} (htext : Lexes text [.newline]) : Reads text [] := by
  apply reads_of_group htext
  intro rest
  rw [List.singleton_append, group, if_pos rfl]
  rfl

/-! ### An array read back -/

theorem inner_numeral (value : ℤ) : ∀ token ∈ numeral value, Inner token := by
  have hword (letters : List Char) : Inner (.word letters) := ⟨nofun, nofun⟩
  have hminus : Inner (.symbol '-') := ⟨nofun, by decide⟩
  cases value with
  | ofNat n => exact List.forall_mem_singleton.mpr (hword _)
  | negSucc n => exact List.forall_mem_cons.mpr ⟨hminus, List.forall_mem_singleton.mpr (hword _)⟩

theorem inner_valueTokens (values : List ℤ) : ∀ token ∈ valueTokens values, Inner token := by
  have hbrace : Inner (.symbol '\x7d') := ⟨nofun, by decide⟩
  have hcomma : Inner (.symbol ',') := ⟨nofun, by decide⟩
  induction values with
  | nil => exact List.forall_mem_singleton.mpr hbrace
  | cons value values ih =>
    cases values with
    | nil =>
      exact List.forall_mem_append.mpr ⟨inner_numeral value, List.forall_mem_singleton.mpr hbrace⟩
    | cons next values =>
      exact List.forall_mem_append.mpr
        ⟨inner_numeral value, List.forall_mem_cons.mpr ⟨hcomma, ih⟩⟩

theorem initializers_numeral (value : ℤ) (c : Char) (rest : List Token) :
    initializers (numeral value ++ .symbol c :: rest) =
      separated c rest (some value) (initializers rest) := by
  cases value with
  | ofNat n =>
    rw [numeral, List.singleton_append, initializers, constant_toDigits]
    rfl
  | negSucc n =>
    rw [numeral, List.cons_append, List.singleton_append, initializers, if_pos rfl,
      constant_toDigits]
    rfl

theorem initializers_valueTokens (values : List ℤ) :
    initializers (valueTokens values) = some values := by
  induction values with
  | nil => rfl
  | cons value values ih =>
    cases values with
    | nil =>
      rw [valueTokens, initializers_numeral]
      rfl
    | cons next values =>
      rw [valueTokens, initializers_numeral, ih]
      rfl

/-! ## Printed entries -/

/-- The spelling of a name. -/
def IsName (letters : List Char) : Prop := letters ≠ [] ∧ ∀ c ∈ letters, wordChar c = true

theorem isName_of_check {letters : List Char}
    (h : (!letters.isEmpty && letters.all wordChar) = true) : IsName letters := by
  rw [Bool.and_eq_true, Bool.not_eq_true', List.isEmpty_eq_false_iff, List.all_eq_true] at h
  exact h

theorem IsName.lexes {name : List Char} (h : IsName name) {c : Char} (hc : wordChar c = false)
    (hslash : c ≠ '/') : Lexes (name ++ [c]) (.word name :: single c) :=
  lexes_word hc hslash h.1 h.2

theorem IsName.append {name suffix : List Char} (h : IsName name)
    (hsuffix : ∀ c ∈ suffix, wordChar c = true) : IsName (name ++ suffix) :=
  ⟨List.append_ne_nil_of_left_ne_nil h.1 suffix, List.forall_mem_append.mpr ⟨h.2, hsuffix⟩⟩

theorem isName_toDigits (n : ℕ) : IsName (Nat.toDigits 10 n) :=
  ⟨Nat.toDigits_ne_nil, fun _ hc ↦ wordChar_of_mem_toDigits hc⟩

def ifndefText (name : List Char) : List Char := "#ifndef ".toList ++ (name ++ ['\n'])

def guardText (name : List Char) : List Char := "#define ".toList ++ (name ++ ['\n'])

def defineText (name word : List Char) : List Char :=
  "#define ".toList ++ (name ++ [' ']) ++ (word ++ ['\n'])

def endifText : List Char := "#endif\n".toList

def arrayText (declared : IntArray) : List Char :=
  "static const ".toList ++ (declared.type ++ [' ']) ++ (declared.name ++ ['[']) ++
    (Nat.toDigits 10 declared.length ++ [']']) ++ " = \x7b".toList ++
      (valuesText declared.values ++ ['\x7d']) ++ [';']

theorem arrayText_append (type name : List Char) (length : ℕ) (values : List ℤ)
    (rest : List Char) :
    arrayText ⟨type, name, length, values⟩ ++ rest =
      "static const ".toList ++ (type ++ ([' '] ++ (name ++ (['['] ++ (Nat.toDigits 10 length ++
        ([']'] ++ (" = \x7b".toList ++
          (valuesText values ++ (['\x7d'] ++ ([';'] ++ rest)))))))))) := by
  unfold arrayText
  simp only [List.append_assoc]

theorem inner_word (letters : List Char) : Inner (.word letters) := ⟨nofun, nofun⟩

/-! Fixed text is scanned by evaluation, whatever follows it. -/

theorem lexes_define : Lexes "#define ".toList [.symbol '#', .word "define".toList] := fun _ ↦ rfl

theorem lexes_ifndef : Lexes "#ifndef ".toList [.symbol '#', .word "ifndef".toList] := fun _ ↦ rfl

theorem lexes_endif : Lexes endifText [.symbol '#', .word "endif".toList, .newline] := fun _ ↦ rfl

theorem lexes_staticConst :
    Lexes "static const ".toList [.word "static".toList, .word "const".toList] := fun _ ↦ rfl

theorem lexes_opening : Lexes " = \x7b".toList [.symbol '=', .symbol '\x7b'] := fun _ ↦ rfl

theorem reads_endifText : Reads endifText [.endif] :=
  reads_directive [.word "endif".toList] lexes_endif
    (List.forall_mem_singleton.mpr (inner_word _)) rfl

section

variable {name : List Char} (hname : IsName name)

include hname

theorem reads_ifndefText : Reads (ifndefText name) [.ifndef name] := by
  have hline : Lexes (name ++ ['\n']) [.word name, .newline] :=
    hname.lexes (by decide) (by decide)
  exact reads_directive [.word "ifndef".toList, .word name] (lexes_ifndef.append hline)
    (by simp [inner_word]) rfl

theorem reads_guardText : Reads (guardText name) [.define name []] := by
  have hline : Lexes (name ++ ['\n']) [.word name, .newline] :=
    hname.lexes (by decide) (by decide)
  exact reads_directive [.word "define".toList, .word name] (lexes_define.append hline)
    (by simp [inner_word]) rfl

theorem reads_defineText {word : List Char} (hword : IsName word) :
    Reads (defineText name word) [.define name [.word word]] := by
  have hbegin : Lexes (name ++ [' ']) [.word name] := hname.lexes (by decide) (by decide)
  have hline : Lexes (word ++ ['\n']) [.word word, .newline] :=
    hword.lexes (by decide) (by decide)
  exact reads_directive [.word "define".toList, .word name, .word word]
    ((lexes_define.append hbegin).append hline) (by simp [inner_word]) rfl

end

/-- The tokens of a declaration in front of its initialisers. -/
def headTokens (declared : IntArray) : List Token :=
  [.word "static".toList, .word "const".toList, .word declared.type, .word declared.name,
    .symbol '[', .word (Nat.toDigits 10 declared.length), .symbol ']', .symbol '=', .symbol '\x7b']

theorem inner_headTokens (declared : IntArray) : ∀ token ∈ headTokens declared, Inner token := by
  simp [headTokens, Inner]

theorem parse_headTokens (declared : IntArray) :
    parse (headTokens declared ++ valueTokens declared.values) = .array declared := by
  have hdeclaration : parseDeclaration (headTokens declared ++ valueTokens declared.values) =
      some (.array declared) := by
    simp only [headTokens, List.cons_append, List.nil_append, parseDeclaration]
    rw [if_pos trivial, constant_toDigits, initializers_valueTokens]
    rfl
  have hdirective : isDirective (headTokens declared ++ valueTokens declared.values) = false := rfl
  rw [parse, hdirective, if_neg Bool.false_ne_true, hdeclaration]
  rfl

/-- The declared length and the integers of a printed array are read back as they were. -/
theorem reads_arrayText {declared : IntArray} (htype : IsName declared.type)
    (hname : IsName declared.name) : Reads (arrayText declared) [.array declared] := by
  have hhead : Lexes ("static const ".toList ++ (declared.type ++ [' ']) ++
      (declared.name ++ ['[']) ++ (Nat.toDigits 10 declared.length ++ [']']) ++ " = \x7b".toList)
      (headTokens declared) :=
    (((lexes_staticConst.append (htype.lexes (by decide) (by decide))).append
      (hname.lexes (by decide) (by decide))).append
        (lexes_digits declared.length (by decide) (by decide))).append lexes_opening
  have hend : Lexes [';'] [.symbol ';'] := lexes_single (by decide) (by decide)
  have htext := (hhead.append (lexes_valuesText declared.values)).append hend
  have hinner : ∀ token ∈ headTokens declared ++ valueTokens declared.values, Inner token :=
    List.forall_mem_append.mpr ⟨inner_headTokens declared, inner_valueTokens declared.values⟩
  exact reads_declaration _ htext hinner rfl (parse_headTokens declared)

/-! ## Inclusion -/

/-- What a compiler knows after a header: the definitions and the arrays, in their order. -/
@[ext]
structure Known where
  defined : List (List Char × List Token)
  arrays : List IntArray

def Known.isDefined (known : Known) (name : List Char) : Bool :=
  known.defined.any fun definition ↦ definition.1 = name

/-- The value of a name that is defined to be a constant. -/
def Known.value? (known : Known) (name : List Char) : Option ℕ :=
  match known.defined.find? fun definition ↦ definition.1 = name with
  | some (_, [.word digits]) => constant digits
  | _ => none

def Known.array? (known : Known) (name : List Char) : Option IntArray :=
  known.arrays.find? fun declared ↦ declared.name = name

/-- One directive or declaration; `skipping` counts the conditions that are open in a group that is
left out. -/
def step : ℕ × Known → Entry → ℕ × Known
  | (0, known), .ifndef name => (if known.isDefined name then 1 else 0, known)
  | (skipping + 1, known), .ifndef _ => (skipping + 2, known)
  | (skipping, known), .endif => (skipping - 1, known)
  | (0, known), .define name replacement =>
    (0, { known with defined := known.defined ++ [(name, replacement)] })
  | (0, known), .array declared => (0, { known with arrays := known.arrays ++ [declared] })
  | (skipping, known), _ => (skipping, known)

/-- What is known after one more inclusion of a header. -/
def included (known : Known) (text : List Char) : Known :=
  ((entries text).foldl step (0, known)).2

def Entry.definition? : Entry → Option (List Char × List Token)
  | .define name replacement => some (name, replacement)
  | _ => none

def Entry.array? : Entry → Option IntArray
  | .array declared => some declared
  | _ => none

/-- A definition or a declaration. -/
def Entry.isPlain : Entry → Bool
  | .define _ _ | .array _ => true
  | _ => false

theorem foldl_step_plain {body : List Entry} (hplain : ∀ entry ∈ body, entry.isPlain = true)
    (known : Known) : body.foldl step (0, known) =
      (0, ⟨known.defined ++ body.filterMap Entry.definition?,
        known.arrays ++ body.filterMap Entry.array?⟩) := by
  induction body generalizing known with
  | nil =>
    rw [List.filterMap_nil, List.filterMap_nil, List.append_nil, List.append_nil]
    rfl
  | cons entry body ih =>
    obtain ⟨hentry, hbody⟩ := List.forall_mem_cons.mp hplain
    cases entry with
    | define name replacement =>
      have hrest := ih hbody ⟨known.defined ++ [(name, replacement)], known.arrays⟩
      rw [List.append_assoc] at hrest
      exact hrest
    | array declared =>
      have hrest := ih hbody ⟨known.defined, known.arrays ++ [declared]⟩
      rw [List.append_assoc] at hrest
      exact hrest
    | ifndef name => exact absurd hentry Bool.false_ne_true
    | endif => exact absurd hentry Bool.false_ne_true
    | other tokens => exact absurd hentry Bool.false_ne_true

theorem foldl_step_skipped {body : List Entry} (hplain : ∀ entry ∈ body, entry.isPlain = true)
    (skipping : ℕ) (known : Known) :
    body.foldl step (skipping + 1, known) = (skipping + 1, known) := by
  induction body with
  | nil => rfl
  | cons entry body ih =>
    obtain ⟨hentry, hbody⟩ := List.forall_mem_cons.mp hplain
    cases entry with
    | define name replacement => exact ih hbody
    | array declared => exact ih hbody
    | ifndef name => exact absurd hentry Bool.false_ne_true
    | endif => exact absurd hentry Bool.false_ne_true
    | other tokens => exact absurd hentry Bool.false_ne_true

section

variable {text guardName : List Char} {body : List Entry} {known : Known}
  (htext : entries text = .ifndef guardName :: .define guardName [] :: body ++ [.endif])
  (hplain : ∀ entry ∈ body, entry.isPlain = true)

include htext

theorem included_eq : included known text =
    (step ((.define guardName [] :: body).foldl step
      (if known.isDefined guardName then 1 else 0, known)) .endif).2 := by
  rw [included, htext, List.foldl_append]
  rfl

include hplain

theorem included_guarded (hnew : known.isDefined guardName = false) :
    included known text =
      ⟨known.defined ++ (guardName, []) :: body.filterMap Entry.definition?,
        known.arrays ++ body.filterMap Entry.array?⟩ := by
  have hguard : ∀ entry ∈ .define guardName [] :: body, entry.isPlain = true :=
    List.forall_mem_cons.mpr ⟨rfl, hplain⟩
  rw [included_eq htext, hnew, if_neg Bool.false_ne_true, foldl_step_plain hguard]
  rfl

/-- A header with an include guard counts once. -/
theorem included_again (hdefined : known.isDefined guardName = true) :
    included known text = known := by
  have hguard : ∀ entry ∈ .define guardName [] :: body, entry.isPlain = true :=
    List.forall_mem_cons.mpr ⟨rfl, hplain⟩
  rw [included_eq htext, hdefined, if_pos rfl, foldl_step_skipped hguard]
  rfl

end

/-! ### Lookup -/

theorem find?_of_nodup {α β : Type*} [DecidableEq β] (key : α → β) {xs : List α}
    (hnodup : (xs.map key).Nodup) {x : α} (hx : x ∈ xs) :
    xs.find? (fun y ↦ key y = key x) = some x := by
  induction xs with
  | nil => exact absurd hx List.not_mem_nil
  | cons y ys ih =>
    obtain ⟨hnew, hrest⟩ := List.nodup_cons.mp hnodup
    rcases List.mem_cons.mp hx with rfl | hmem
    · exact List.find?_cons_of_pos (decide_eq_true rfl)
    · have hne : key y ≠ key x := fun h ↦ hnew (h ▸ List.mem_map_of_mem hmem)
      rw [List.find?_cons_of_neg (by simpa using hne)]
      exact ih hrest hmem

section

variable {known : Known}

theorem Known.array?_of_mem (hnodup : (known.arrays.map IntArray.name).Nodup) {declared : IntArray}
    (hmem : declared ∈ known.arrays) {name : List Char} (hname : declared.name = name) :
    known.array? name = some declared := by
  rw [← hname]
  exact find?_of_nodup IntArray.name hnodup hmem

theorem Known.value?_of_mem (hnodup : (known.defined.map Prod.fst).Nodup) {name word : List Char}
    (hmem : (name, [.word word]) ∈ known.defined) : known.value? name = constant word := by
  have hfind : known.defined.find? (fun definition ↦ definition.1 = name) =
      some (name, [.word word]) := find?_of_nodup Prod.fst hnodup hmem
  rw [Known.value?, hfind]

end

/-! ## Writers -/

/-- From `f` to `g` text is added that is read as these entries. -/
def Writes (f g : String) (found : List Entry) : Prop :=
  ∃ text, g.toList = f.toList ++ text ∧ Reads text found

theorem writes_append (f : String) {text : String} {found : List Entry}
    (htext : Reads text.toList found) : Writes f (f ++ text) found :=
  ⟨text.toList, String.toList_append, htext⟩

theorem Writes.trans {f g h : String} {found found' : List Entry} (hfg : Writes f g found)
    (hgh : Writes g h found') : Writes f h (found ++ found') := by
  obtain ⟨text, hg, htext⟩ := hfg
  obtain ⟨text', hh, htext'⟩ := hgh
  refine ⟨text ++ text', ?_, htext.append htext'⟩
  rw [hh, hg, List.append_assoc]

theorem writes_refl (f : String) : Writes f f [] :=
  ⟨[], (List.append_nil _).symm, fun _ ↦ rfl⟩

theorem Writes.foldl {α : Type*} {write : String → α → String} {found : α → List Entry}
    (hwrite : ∀ f x, Writes f (write f x) (found x)) (f : String) (xs : List α) :
    Writes f (xs.foldl write f) (xs.flatMap found) := by
  induction xs generalizing f with
  | nil => exact writes_refl f
  | cons x xs ih => exact (hwrite f x).trans (ih (write f x))

/-- Nothing but what was written is in a file that was empty before. -/
theorem Writes.entries_eq {g : String} {found : List Entry} (h : Writes "" g found) :
    entries g.toList = found := by
  obtain ⟨text, hg, htext⟩ := h
  have htoList : g.toList = text := hg
  rw [htoList]
  exact htext.entries_eq

end HeaderText
