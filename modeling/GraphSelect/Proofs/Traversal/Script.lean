import GraphSelect.Proofs.Decimal.Text
import GraphSelect.Traversal.Groovy

/-!
# Scripts are unambiguous

Two traversals with the same script are the same traversal. The argument goes through what may
follow a piece of a script: the text of a step determines the step whatever comes after it, that of
a traversal determines it unless a point comes after it, that of a scalar if a parenthesis does
(`ReadsBack`). Quoted texts end where their own quote ends, whatever they contain, and a reader that
knows nothing but quotes and backslashes finds that place (`readQuoted`).

A step is taken apart into its name and its arguments. The name ends at the first parenthesis and
says what kind of arguments there are, so only arguments of one kind have to be told apart.
-/

set_option autoImplicit false

namespace GraphSelect

namespace Groovy

/-- From the text of `a`, with something allowed after it, `a` and what follows can be read back. -/
def ReadsBack {α : Type} (follows : List Char → Prop) (text : α → List Char) (a : α) : Prop :=
  ∀ (b : α) (rest rest' : List Char), follows rest → follows rest' →
    text a ++ rest = text b ++ rest' → a = b ∧ rest = rest'

/-- Whatever follows. -/
def Anything (_ : List Char) : Prop := True

/-- A pipeline does not go on. -/
def NoPoint (rest : List Char) : Prop := rest.head? ≠ some '.'

/-- Two texts without some character, which then follows them. -/
theorem append_cons_inj {a : Char} {xs ys rest rest' : List Char} (hx : a ∉ xs) (hy : a ∉ ys)
    (h : xs ++ a :: rest = ys ++ a :: rest') : xs = ys ∧ rest = rest' := by
  induction xs generalizing ys with
  | nil =>
    cases ys with
    | nil => exact ⟨rfl, (List.cons.inj h).2⟩
    | cons y ys =>
      rw [(List.cons.inj h).1] at hy
      exact absurd List.mem_cons_self hy
  | cons x xs ih =>
    cases ys with
    | nil =>
      rw [← (List.cons.inj h).1] at hx
      exact absurd List.mem_cons_self hx
    | cons y ys =>
      obtain ⟨rfl, htail⟩ := List.cons.inj h
      obtain ⟨rfl, hrest⟩ :=
        ih (fun hmem => hx (.tail _ hmem)) (fun hmem => hy (.tail _ hmem)) htail
      exact ⟨rfl, hrest⟩

/-! ## Quoted texts -/

/-- The text up to the quote that ends it, and what follows that quote. A character after a
backslash stands for itself. -/
def readEscaped : List Char → Option (List Char × List Char)
  | [] => none
  | '\'' :: rest => some ([], rest)
  | '\\' :: c :: rest => (readEscaped rest).map fun found => (c :: found.1, found.2)
  | c :: rest => (readEscaped rest).map fun found => (c :: found.1, found.2)

/-- A quoted text at the beginning, and what follows it. -/
def readQuoted : List Char → Option (String × List Char)
  | '\'' :: rest => (readEscaped rest).map fun found => (String.ofList found.1, found.2)
  | _ => none

theorem escapeChar_eq (c : Char) :
    escapeChar c = if c = '\\' ∨ c = '\'' then ['\\', c] else [c] := by
  have hback : c.toNat = 0x5C ↔ c = '\\' := Char.toNat_inj (d := '\\')
  have hquote : c.toNat = 0x27 ↔ c = '\'' := Char.toNat_inj (d := '\'')
  simp only [escapeChar, Bool.or_eq_true, beq_iff_eq, hback, hquote]

theorem readEscaped_flatMap (cs rest : List Char) :
    readEscaped (cs.flatMap escapeChar ++ '\'' :: rest) = some (cs, rest) := by
  induction cs with
  | nil => rfl
  | cons c cs ih =>
    rw [List.flatMap_cons, List.append_assoc, escapeChar_eq]
    by_cases hc : c = '\\' ∨ c = '\''
    · rw [if_pos hc, List.cons_append, List.cons_append, List.nil_append, readEscaped, ih]
      rfl
    · obtain ⟨hback, hquote⟩ := not_or.1 hc
      rw [if_neg hc, List.singleton_append, readEscaped, ih]
      · rfl
      · exact hquote
      · exact fun _ _ h => absurd h hback

theorem quoted_append (s : String) (rest : List Char) :
    quoted s ++ rest = '\'' :: (s.toList.flatMap escapeChar ++ '\'' :: rest) := by
  simp [quoted]

/-- **A quoted text ends where it was ended**, whatever it contains and whatever follows. -/
theorem readQuoted_quoted (s : String) (rest : List Char) :
    readQuoted (quoted s ++ rest) = some (s, rest) := by
  rw [quoted_append, readQuoted, readEscaped_flatMap]
  simp

theorem head_quoted (s : String) : ∃ c cs, quoted s = c :: cs ∧ c ≠ ')' :=
  ⟨'\'', _, rfl, by decide⟩

theorem quoted_readsBack (s : String) : ReadsBack Anything quoted s := by
  intro s' rest rest' _ _ h
  have hread := readQuoted_quoted s rest
  rw [h, readQuoted_quoted] at hread
  cases hread
  exact ⟨rfl, rfl⟩

/-! ## Lists of arguments -/

theorem commaSeparated_cons (part : List Char) (parts : List (List Char)) :
    commaSeparated (part :: parts) = part ++ parts.flatMap fun p => ',' :: ' ' :: p := by
  induction parts generalizing part with
  | nil => simp [commaSeparated]
  | cons p parts ih => simp [commaSeparated, ih]

section

variable {α : Type} {text : α → List Char}

/-- What follows an argument in a list. -/
def further (text : α → List Char) (as : List α) : List Char :=
  (as.map text).flatMap fun p => ',' :: ' ' :: p

theorem noPoint_further (as : List α) (rest : List Char) : NoPoint (further text as ++ ')' :: rest) := by
  cases as <;> simp [NoPoint, further]

theorem further_inj {as bs : List α} {rest rest' : List Char}
    (hread : ∀ a ∈ as, ReadsBack NoPoint text a)
    (h : further text as ++ ')' :: rest = further text bs ++ ')' :: rest') :
    as = bs ∧ rest = rest' := by
  induction as generalizing bs with
  | nil =>
    cases bs with
    | nil => exact ⟨rfl, (List.cons.inj h).2⟩
    | cons b bs => simp [further] at h
  | cons a as ih =>
    cases bs with
    | nil => simp [further] at h
    | cons b bs =>
      have htail : text a ++ (further text as ++ ')' :: rest) =
          text b ++ (further text bs ++ ')' :: rest') := by
        simpa [further] using h
      obtain ⟨rfl, hmore⟩ := hread a List.mem_cons_self b _ _ (noPoint_further as rest)
        (noPoint_further bs rest') htail
      obtain ⟨rfl, hrest⟩ := ih (fun a ha => hread a (.tail _ ha)) hmore
      exact ⟨rfl, hrest⟩

/-- **A list of arguments can be read back**, up to the parenthesis that closes it. -/
theorem commaSeparated_inj {as bs : List α} {rest rest' : List Char}
    (hread : ∀ a ∈ as, ReadsBack NoPoint text a)
    (hstart : ∀ a, ∃ c cs, text a = c :: cs ∧ c ≠ ')')
    (h : commaSeparated (as.map text) ++ ')' :: rest =
      commaSeparated (bs.map text) ++ ')' :: rest') : as = bs ∧ rest = rest' := by
  -- An empty list is closed at once, and no argument begins with a parenthesis.
  have hempty (a : α) (xs ys : List Char) : ')' :: xs ≠ text a ++ ys := by
    obtain ⟨c, cs, ha, hc⟩ := hstart a
    rw [ha]
    exact fun heq => hc (List.cons.inj heq).1.symm
  cases as with
  | nil =>
    cases bs with
    | nil => exact ⟨rfl, (List.cons.inj h).2⟩
    | cons b bs =>
      rw [List.map_cons, commaSeparated_cons, List.append_assoc] at h
      exact absurd h (hempty b _ _)
  | cons a as =>
    cases bs with
    | nil =>
      rw [List.map_cons, commaSeparated_cons, List.append_assoc] at h
      exact absurd h.symm (hempty a _ _)
    | cons b bs =>
      rw [List.map_cons, List.map_cons, commaSeparated_cons, commaSeparated_cons,
        List.append_assoc, List.append_assoc] at h
      obtain ⟨rfl, hmore⟩ := hread a List.mem_cons_self b _ _ (noPoint_further as rest)
        (noPoint_further bs rest') h
      obtain ⟨rfl, hrest⟩ := further_inj (fun a ha => hread a (.tail _ ha)) hmore
      exact ⟨rfl, hrest⟩

end

/-- The name of a step ends at the first parenthesis. -/
theorem applied_inj {name name' : String} {arguments arguments' rest rest' : List Char}
    (hn : '(' ∉ name.toList) (hn' : '(' ∉ name'.toList)
    (h : applied name arguments ++ rest = applied name' arguments' ++ rest') :
    name = name' ∧ arguments ++ ')' :: rest = arguments' ++ ')' :: rest' := by
  have happlied (name : String) (arguments rest : List Char) : applied name arguments ++ rest =
      name.toList ++ '(' :: (arguments ++ ')' :: rest) := by
    simp [applied]
  rw [happlied, happlied] at h
  obtain ⟨hname, harguments⟩ := append_cons_inj hn hn' h
  exact ⟨String.toList_inj.1 hname, harguments⟩

end Groovy

open Groovy

/-! ## Scalars -/

namespace Scalar

theorem numberFormat_marked : Groovy.numberFormat.Marked :=
  ⟨rfl, rfl⟩

/-- The character that a scalar ends with tells its type. -/
def mark : Scalar → Char
  | .null => 'l'
  | .boolean _ => 'e'
  | .long _ => 'L'
  | .double _ => 'd'
  | .string _ => '\''

theorem getLast?_groovyChars (v : Scalar) : v.groovyChars.getLast? = some v.mark := by
  cases v with
  | null => rfl
  | boolean b => cases b <;> rfl
  | long i => simp [groovyChars, mark]
  | double x => simp [groovyChars, mark]
  | string s =>
    rw [groovyChars, quoted, List.getLast?_append]
    rfl

theorem groovyChars_inj {v v' : Scalar} (h : v.groovyChars = v'.groovyChars) : v = v' := by
  have hmark : v.mark = v'.mark := by
    have hlast := congrArg List.getLast? h
    rw [getLast?_groovyChars, getLast?_groovyChars] at hlast
    exact Option.some.inj hlast
  cases v with
  | null =>
    cases v' with
    | null => rfl
    | _ => simp [mark] at hmark
  | boolean b =>
    cases v' with
    | boolean b' => cases b <;> cases b' <;> simp [groovyChars] at h ⊢
    | _ => simp [mark] at hmark
  | long i =>
    cases v' with
    | long i' =>
      have hdigits := congrArg Decimal.intValue (List.append_cancel_right h)
      rw [Decimal.intValue_intDigits, Decimal.intValue_intDigits] at hdigits
      rw [Int64.toInt_inj.1 hdigits]
    | _ => simp [mark] at hmark
  | double x =>
    cases v' with
    | double x' =>
      rw [Decimal.chars_injective numberFormat_marked (List.append_cancel_right h)]
    | _ => simp [mark] at hmark
  | string s =>
    cases v' with
    | string s' => rw [(quoted_readsBack s s' [] [] trivial trivial (congrArg (· ++ []) h)).1]
    | _ => simp [mark] at hmark

/-- A scalar that is no text has neither quotes nor parentheses. -/
theorem not_mem_groovyChars {v : Scalar} (hv : ∀ s, v ≠ .string s) {c : Char}
    (hc : c = ')' ∨ c = '\'') : c ∉ v.groovyChars := by
  have hnumber : Decimal.isNumberChar c = false := by
    rcases hc with rfl | rfl <;> rfl
  have hnone {cs : List Char} (hcs : ∀ d ∈ cs, Decimal.isNumberChar d = true) : c ∉ cs := by
    intro hmem
    rw [hcs c hmem] at hnumber
    cases hnumber
  cases v with
  | null => rcases hc with rfl | rfl <;> simp [groovyChars]
  | boolean b => rcases hc with rfl | rfl <;> cases b <;> simp [groovyChars]
  | long i =>
    have hdigits := hnone (Decimal.isNumberChar_intDigits i.toInt)
    rcases hc with rfl | rfl <;> simp [groovyChars, hdigits]
  | double x =>
    have hdigits := hnone (Decimal.isNumberChar_chars numberFormat_marked x)
    rcases hc with rfl | rfl <;> simp [groovyChars, hdigits]
  | string s => exact absurd rfl (hv s)

/-- No other scalar begins like a text. -/
theorem quoted_ne {v : Scalar} (hv : ∀ s, v ≠ .string s) (s : String) (rest rest' : List Char) :
    quoted s ++ ')' :: rest ≠ v.groovyChars ++ ')' :: rest' := by
  intro h
  rw [quoted_append] at h
  cases hchars : v.groovyChars with
  | nil =>
    rw [hchars] at h
    exact absurd (List.cons.inj h).1 (by decide)
  | cons c cs =>
    rw [hchars] at h
    apply not_mem_groovyChars hv (.inr (List.cons.inj h).1.symm)
    rw [hchars]
    exact List.mem_cons_self

/-- **A scalar can be read back up to the parenthesis after it.** -/
theorem readsBack_close {v v' : Scalar} {rest rest' : List Char}
    (h : v.groovyChars ++ ')' :: rest = v'.groovyChars ++ ')' :: rest') :
    v = v' ∧ rest = rest' := by
  by_cases hv : ∃ s, v = .string s
  · obtain ⟨s, rfl⟩ := hv
    by_cases hv' : ∃ s', v' = .string s'
    · obtain ⟨s', rfl⟩ := hv'
      obtain ⟨rfl, hrest⟩ := quoted_readsBack s s' _ _ trivial trivial h
      exact ⟨rfl, (List.cons.inj hrest).2⟩
    · exact absurd h (quoted_ne (not_exists.1 hv') s _ _)
  · by_cases hv' : ∃ s', v' = .string s'
    · obtain ⟨s', rfl⟩ := hv'
      exact absurd h.symm (quoted_ne (not_exists.1 hv) s' _ _)
    · obtain ⟨hchars, hrest⟩ := append_cons_inj (not_mem_groovyChars (not_exists.1 hv) (.inl rfl))
        (not_mem_groovyChars (not_exists.1 hv') (.inl rfl)) h
      exact ⟨groovyChars_inj hchars, hrest⟩

end Scalar

/-! ## Names and arguments of steps -/

/-- What stands between the parentheses of a step. -/
inductive Arguments where
  | none
  | text (s : String)
  -- The word for the values of a map.
  | word
  | traversal (t : Traversal)
  | modifier (key : Traversal) (direction : Option Direction)
  | branches (ts : List Traversal)
  | keys (names : List String)
  | comparison (compare : Compare) (value : Scalar)
  | scalar (value : Scalar)

inductive ArgumentKind where
  | none
  | text
  | word
  | traversal
  | modifier
  | branches
  | keys
  | comparison
  | scalar

def Arguments.kind : Arguments → ArgumentKind
  | .none => .none
  | .text _ => .text
  | .word => .word
  | .traversal _ => .traversal
  | .modifier _ _ => .modifier
  | .branches _ => .branches
  | .keys _ => .keys
  | .comparison _ _ => .comparison
  | .scalar _ => .scalar

def directionChars : Option Direction → List Char
  | none => []
  | some direction => ", ".toList ++ direction.name.toList

def Arguments.chars : Arguments → List Char
  | .none => []
  | .text s => quoted s
  | .word => "values".toList
  | .traversal t => t.groovyChars
  | .modifier key direction => key.groovyChars ++ directionChars direction
  | .branches ts => commaSeparated (Traversal.branchChars ts)
  | .keys names => commaSeparated (names.map quoted)
  | .comparison compare value => applied compare.name value.groovyChars
  | .scalar value => value.groovyChars

/-- The traversals among some arguments. -/
def Arguments.traversals : Arguments → List Traversal
  | .traversal t => [t]
  | .modifier key _ => [key]
  | .branches ts => ts
  | _ => []

def Step.parts : Step → String × Arguments
  | .vertices => ("V", .none)
  | .edges => ("E", .none)
  | .hasLabel label => ("hasLabel", .text label)
  | .group => ("group", .none)
  | .by key direction => ("by", .modifier key direction)
  | .unfold => ("unfold", .none)
  | .fold => ("fold", .none)
  | .selectValues => ("select", .word)
  | .order => ("order", .none)
  | .filter condition => ("where", .traversal condition)
  | .values key => ("values", .text key)
  | .id => ("id", .none)
  | .inVertex => ("inV", .none)
  | .outVertex => ("outV", .none)
  | .union branches => ("union", .branches branches)
  | .and branches => ("and", .branches branches)
  | .or branches => ("or", .branches branches)
  | .is compare value => ("is", .comparison compare value)
  | .project keys => ("project", .keys keys)
  | .coalesce branches => ("coalesce", .branches branches)
  | .constant value => ("constant", .scalar value)
  | .count => ("count", .none)
  | .sum => ("sum", .none)
  | .mean => ("mean", .none)
  | .min => ("min", .none)
  | .max => ("max", .none)

/-- The step with some name and arguments. -/
def Step.ofParts? : String → Arguments → Option Step
  | "V", .none => some .vertices
  | "E", .none => some .edges
  | "hasLabel", .text label => some (.hasLabel label)
  | "group", .none => some .group
  | "by", .modifier key direction => some (.by key direction)
  | "unfold", .none => some .unfold
  | "fold", .none => some .fold
  | "select", .word => some .selectValues
  | "order", .none => some .order
  | "where", .traversal condition => some (.filter condition)
  | "values", .text key => some (.values key)
  | "id", .none => some .id
  | "inV", .none => some .inVertex
  | "outV", .none => some .outVertex
  | "union", .branches branches => some (.union branches)
  | "and", .branches branches => some (.and branches)
  | "or", .branches branches => some (.or branches)
  | "is", .comparison compare value => some (.is compare value)
  | "project", .keys keys => some (.project keys)
  | "coalesce", .branches branches => some (.coalesce branches)
  | "constant", .scalar value => some (.constant value)
  | "count", .none => some .count
  | "sum", .none => some .sum
  | "mean", .none => some .mean
  | "min", .none => some .min
  | "max", .none => some .max
  | _, _ => none

theorem Step.ofParts?_parts (s : Step) : Step.ofParts? s.parts.1 s.parts.2 = some s := by
  cases s <;> rfl

/-- What kind of arguments a step with some name has. -/
def kindOf : String → ArgumentKind
  | "hasLabel" | "values" => .text
  | "by" => .modifier
  | "select" => .word
  | "where" => .traversal
  | "union" | "and" | "or" | "coalesce" => .branches
  | "is" => .comparison
  | "project" => .keys
  | "constant" => .scalar
  | _ => .none

theorem Step.kind_parts (s : Step) : s.parts.2.kind = kindOf s.parts.1 := by
  cases s <;> rfl

theorem Step.groovyChars_eq (s : Step) : s.groovyChars = applied s.parts.1 s.parts.2.chars := by
  cases s with
  | «by» key direction =>
    cases direction with
    | none =>
      show applied "by" key.groovyChars = applied "by" (key.groovyChars ++ [])
      rw [List.append_nil]
    | some direction =>
      show applied "by" (key.groovyChars ++ ", ".toList ++ direction.name.toList) =
        applied "by" (key.groovyChars ++ (", ".toList ++ direction.name.toList))
      rw [List.append_assoc]
  | _ => rfl

def stepNames : List String :=
  ["V", "E", "hasLabel", "group", "by", "unfold", "fold", "select", "order", "where", "values", "id",
    "inV", "outV", "union", "and", "or", "is", "project", "coalesce", "constant", "count", "sum",
    "mean", "min", "max"]

theorem Step.name_mem (s : Step) : s.parts.1 ∈ stepNames := by
  cases s <;> simp [Step.parts, stepNames]

theorem Step.name_spec (s : Step) : '(' ∉ s.parts.1.toList ∧ s.parts.1 ≠ "identity" := by
  have hall : ∀ n ∈ stepNames, '(' ∉ n.toList ∧ n ≠ "identity" := by decide
  exact hall _ s.name_mem

/-! ## Arguments of one kind -/

theorem Traversal.branchChars_eq (ts : List Traversal) :
    Traversal.branchChars ts = ts.map Traversal.groovyChars := by
  induction ts with
  | nil => rfl
  | cons t ts ih =>
    show t.groovyChars :: Traversal.branchChars ts = _
    rw [ih, List.map_cons]

def originChars : Origin → List Char
  | .root => ['g']
  | .anonymous => ['_', '_']

/-- The steps of a traversal, or the step that stands for none. -/
def bodyChars : List Step → List Char
  | [] => '.' :: applied "identity" []
  | steps => Step.pipelineChars steps

theorem Traversal.groovyChars_mk (origin : Origin) (steps : List Step) :
    (Traversal.mk origin steps).groovyChars = originChars origin ++ bodyChars steps := by
  cases origin <;> cases steps <;> rfl

theorem Traversal.head_groovyChars (t : Traversal) : ∃ c cs, t.groovyChars = c :: cs ∧ c ≠ ')' := by
  obtain ⟨origin, steps⟩ := t
  rw [Traversal.groovyChars_mk]
  cases origin
  · exact ⟨'g', _, rfl, by decide⟩
  · exact ⟨'_', _, rfl, by decide⟩

theorem directionChars_inj {d d' : Option Direction} {rest rest' : List Char}
    (h : directionChars d ++ ')' :: rest = directionChars d' ++ ')' :: rest') :
    d = d' ∧ rest = rest' := by
  rcases d with _ | _ | _ <;> rcases d' with _ | _ | _ <;>
    simp [directionChars, Direction.name] at h ⊢ <;> exact h

theorem noPoint_directionChars (d : Option Direction) (rest : List Char) :
    NoPoint (directionChars d ++ ')' :: rest) := by
  cases d <;> simp [directionChars, NoPoint]

theorem Compare.name_inj {c c' : Compare} (h : c.name = c'.name) : c = c' := by
  cases c <;> cases c' <;> simp [Compare.name] at h ⊢

theorem Compare.not_mem_name (c : Compare) : '(' ∉ c.name.toList := by
  cases c <;> decide

/-- **Arguments of one kind can be read back** up to the parenthesis that closes them, if the
traversals among them can. -/
theorem Arguments.readsBack {a a' : Arguments} {rest rest' : List Char}
    (hread : ∀ t ∈ a.traversals, ReadsBack NoPoint Traversal.groovyChars t)
    (hkind : a.kind = a'.kind) (h : a.chars ++ ')' :: rest = a'.chars ++ ')' :: rest') :
    a = a' ∧ rest = rest' := by
  cases a with
  | none =>
    cases a' with
    | none => exact ⟨rfl, (List.cons.inj h).2⟩
    | _ => cases hkind
  | text s =>
    cases a' with
    | text s' =>
      obtain ⟨rfl, hrest⟩ := quoted_readsBack s s' _ _ trivial trivial h
      exact ⟨rfl, (List.cons.inj hrest).2⟩
    | _ => cases hkind
  | word =>
    cases a' with
    | word => exact ⟨rfl, (List.cons.inj (List.append_cancel_left h)).2⟩
    | _ => cases hkind
  | traversal t =>
    cases a' with
    | traversal t' =>
      obtain ⟨rfl, hrest⟩ := hread t List.mem_cons_self t' _ _ (by simp [NoPoint])
        (by simp [NoPoint]) h
      exact ⟨rfl, (List.cons.inj hrest).2⟩
    | _ => cases hkind
  | modifier key direction =>
    cases a' with
    | modifier key' direction' =>
      change (key.groovyChars ++ directionChars direction) ++ _ =
        (key'.groovyChars ++ directionChars direction') ++ _ at h
      rw [List.append_assoc, List.append_assoc] at h
      obtain ⟨rfl, hdirection⟩ := hread key List.mem_cons_self key' _ _
        (noPoint_directionChars _ _) (noPoint_directionChars _ _) h
      obtain ⟨rfl, hrest⟩ := directionChars_inj hdirection
      exact ⟨rfl, hrest⟩
    | _ => cases hkind
  | branches ts =>
    cases a' with
    | branches ts' =>
      change commaSeparated (Traversal.branchChars ts) ++ _ =
        commaSeparated (Traversal.branchChars ts') ++ _ at h
      rw [Traversal.branchChars_eq, Traversal.branchChars_eq] at h
      obtain ⟨rfl, hrest⟩ := commaSeparated_inj hread Traversal.head_groovyChars h
      exact ⟨rfl, hrest⟩
    | _ => cases hkind
  | keys names =>
    cases a' with
    | keys names' =>
      have hquoted : ∀ s ∈ names, ReadsBack NoPoint quoted s := by
        intro s _ s' rest rest' _ _ heq
        exact quoted_readsBack s s' rest rest' trivial trivial heq
      obtain ⟨rfl, hrest⟩ := commaSeparated_inj hquoted head_quoted h
      exact ⟨rfl, hrest⟩
    | _ => cases hkind
  | comparison c v =>
    cases a' with
    | comparison c' v' =>
      obtain ⟨hname, hvalue⟩ := applied_inj c.not_mem_name c'.not_mem_name h
      obtain ⟨rfl, hrest⟩ := Scalar.readsBack_close hvalue
      rw [Compare.name_inj hname]
      exact ⟨rfl, (List.cons.inj hrest).2⟩
    | _ => cases hkind
  | scalar v =>
    cases a' with
    | scalar v' =>
      obtain ⟨rfl, hrest⟩ := Scalar.readsBack_close h
      exact ⟨rfl, hrest⟩
    | _ => cases hkind

/-! ## Steps and traversals -/

/-- **A step can be read back whatever follows it**, if the traversals inside of it can. -/
theorem Step.readsBack_of_arguments {s : Step}
    (hread : ∀ t ∈ s.parts.2.traversals, ReadsBack NoPoint Traversal.groovyChars t) :
    ReadsBack Anything Step.groovyChars s := by
  intro s' rest rest' _ _ h
  rw [Step.groovyChars_eq, Step.groovyChars_eq] at h
  obtain ⟨hname, harguments⟩ := applied_inj s.name_spec.1 s'.name_spec.1 h
  -- `union()` and `count()` have the same arguments; it is the name that tells them apart.
  have hkind : s.parts.2.kind = s'.parts.2.kind := by
    rw [Step.kind_parts, Step.kind_parts, hname]
  obtain ⟨hparts, hrest⟩ := Arguments.readsBack hread hkind harguments
  have hstep := s.ofParts?_parts
  rw [hname, hparts, Step.ofParts?_parts] at hstep
  exact ⟨(Option.some.inj hstep).symm, hrest⟩

theorem Step.pipelineChars_cons (s : Step) (steps : List Step) :
    Step.pipelineChars (s :: steps) = '.' :: (s.groovyChars ++ Step.pipelineChars steps) :=
  rfl

theorem Step.pipelineChars_inj {steps steps' : List Step} {rest rest' : List Char}
    (hread : ∀ s ∈ steps, ReadsBack Anything Step.groovyChars s) (hrest : NoPoint rest)
    (hrest' : NoPoint rest')
    (h : Step.pipelineChars steps ++ rest = Step.pipelineChars steps' ++ rest') :
    steps = steps' ∧ rest = rest' := by
  induction steps generalizing steps' with
  | nil =>
    cases steps' with
    | nil => exact ⟨rfl, h⟩
    | cons s' steps' =>
      rw [show rest = '.' :: _ from h] at hrest
      exact absurd rfl hrest
  | cons s steps ih =>
    cases steps' with
    | nil =>
      rw [show rest' = '.' :: _ from h.symm] at hrest'
      exact absurd rfl hrest'
    | cons s' steps' =>
      have htail : s.groovyChars ++ (Step.pipelineChars steps ++ rest) =
          s'.groovyChars ++ (Step.pipelineChars steps' ++ rest') := by
        simpa [Step.pipelineChars_cons] using h
      obtain ⟨rfl, hmore⟩ := hread s List.mem_cons_self s' _ _ trivial trivial htail
      obtain ⟨rfl, heq⟩ := ih (fun s hs => hread s (.tail _ hs)) hmore
      exact ⟨rfl, heq⟩

/-- No step is written like the one that stands for none. -/
theorem identity_ne (s : Step) (rest rest' : List Char) :
    applied "identity" [] ++ rest ≠ s.groovyChars ++ rest' := by
  intro h
  rw [Step.groovyChars_eq] at h
  exact s.name_spec.2 (applied_inj (by decide) s.name_spec.1 h).1.symm

theorem bodyChars_inj {steps steps' : List Step} {rest rest' : List Char}
    (hread : ∀ s ∈ steps, ReadsBack Anything Step.groovyChars s) (hrest : NoPoint rest)
    (hrest' : NoPoint rest') (h : bodyChars steps ++ rest = bodyChars steps' ++ rest') :
    steps = steps' ∧ rest = rest' := by
  cases steps with
  | nil =>
    cases steps' with
    | nil => exact ⟨rfl, List.append_cancel_left h⟩
    | cons s' steps' =>
      simp only [bodyChars, Step.pipelineChars_cons, List.cons_append, List.append_assoc,
        List.cons.injEq, true_and] at h
      exact absurd h (identity_ne s' _ _)
  | cons s steps =>
    cases steps' with
    | nil =>
      simp only [bodyChars, Step.pipelineChars_cons, List.cons_append, List.append_assoc,
        List.cons.injEq, true_and] at h
      exact absurd h.symm (identity_ne s _ _)
    | cons s' steps' => exact Step.pipelineChars_inj hread hrest hrest' h

theorem Traversal.readsBack_of_steps {origin : Origin} {steps : List Step}
    (hread : ∀ s ∈ steps, ReadsBack Anything Step.groovyChars s) :
    ReadsBack NoPoint Traversal.groovyChars (.mk origin steps) := by
  rintro ⟨origin', steps'⟩ rest rest' hrest hrest' h
  rw [Traversal.groovyChars_mk, Traversal.groovyChars_mk] at h
  have horigin : origin = origin' ∧ bodyChars steps ++ rest = bodyChars steps' ++ rest' := by
    cases origin <;> cases origin'
    · exact ⟨rfl, (List.cons.inj h).2⟩
    · exact absurd (List.cons.inj h).1 (by decide)
    · exact absurd (List.cons.inj h).1 (by decide)
    · exact ⟨rfl, (List.cons.inj (List.cons.inj h).2).2⟩
  obtain ⟨rfl, hbody⟩ := horigin
  obtain ⟨rfl, heq⟩ := bodyChars_inj hread hrest hrest' hbody
  exact ⟨rfl, heq⟩

-- The recursion is that of the syntax; what each piece needs of its parts has been said above.
mutual

/-- **A traversal can be read back** wherever its pipeline does not go on. -/
theorem Traversal.readsBack : ∀ t : Traversal, ReadsBack NoPoint Traversal.groovyChars t
  | .mk _ steps => Traversal.readsBack_of_steps (Step.all_readsBack steps)

theorem Step.readsBack : ∀ s : Step, ReadsBack Anything Step.groovyChars s
  | .by key _ | .filter key =>
    Step.readsBack_of_arguments (List.forall_mem_singleton.2 (Traversal.readsBack key))
  | .union branches | .and branches | .or branches | .coalesce branches =>
    Step.readsBack_of_arguments (Traversal.all_readsBack branches)
  | .vertices | .edges | .hasLabel _ | .group | .unfold | .fold | .selectValues | .order | .values _
  | .id | .inVertex | .outVertex | .is _ _ | .project _ | .constant _ | .count | .sum | .mean | .min
  | .max => Step.readsBack_of_arguments fun _ ht => absurd ht List.not_mem_nil

theorem Step.all_readsBack :
    ∀ steps : List Step, ∀ s ∈ steps, ReadsBack Anything Step.groovyChars s
  | [] => fun _ hs => absurd hs List.not_mem_nil
  | s :: steps => List.forall_mem_cons.2 ⟨Step.readsBack s, Step.all_readsBack steps⟩

theorem Traversal.all_readsBack :
    ∀ ts : List Traversal, ∀ t ∈ ts, ReadsBack NoPoint Traversal.groovyChars t
  | [] => fun _ ht => absurd ht List.not_mem_nil
  | t :: ts => List.forall_mem_cons.2 ⟨Traversal.readsBack t, Traversal.all_readsBack ts⟩

end

/-- **Scripts are unambiguous.** Two traversals with the same script are the same, in whatever they
contain. Inside of a script a step is determined whatever stands after it, and so is a quoted text:
a reader that knows quotes and backslashes finds its end, whatever it contains. -/
theorem script_unambiguous :
    Function.Injective Traversal.groovy ∧
    (∀ (s s' : Step) (rest rest' : List Char),
      s.groovyChars ++ rest = s'.groovyChars ++ rest' → s = s' ∧ rest = rest') ∧
    ∀ (text : String) (rest : List Char),
      readQuoted (quoted text ++ rest) = some (text, rest) := by
  refine ⟨?_, ?_, readQuoted_quoted⟩
  · intro t u h
    have hchars : t.groovyChars ++ [] = u.groovyChars ++ [] :=
      congrArg (· ++ []) (String.ofList_injective h)
    exact (t.readsBack u [] [] (by simp [NoPoint]) (by simp [NoPoint]) hchars).1
  · intro s s' rest rest' h
    exact s.readsBack s' rest rest' trivial trivial h

/-- A key that looks like two keys, and a label that tries to end its literal and its step. -/
theorem script_unambiguous_hostileTexts :
    (Traversal.root [.vertices, .project ["a', 'b"]]).groovy ≠
        (Traversal.root [.vertices, .project ["a", "b"]]).groovy ∧
      (Traversal.root [.vertices, .hasLabel "x').values('y"]).groovy ≠
        (Traversal.root [.vertices, .hasLabel "x", .values "y"]).groovy := by
  refine ⟨?_, ?_⟩
  · intro h
    have heq := script_unambiguous.1 h
    simp [Traversal.root] at heq
  · intro h
    have heq := script_unambiguous.1 h
    simp [Traversal.root] at heq

end GraphSelect
