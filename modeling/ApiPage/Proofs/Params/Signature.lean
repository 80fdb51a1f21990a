import ApiPage.Proofs.Page.Declaration
import ApiPage.Proofs.Params.Markers
import ApiPage.Proofs.Text.Lines

/-!
# Reading a signature

A declaration in lines tells the names and the kinds of its parameters. The kinds are read off the places of the
lines: what comes before the slash is bound by position only, a star opens what is bound by name only, and two
stars take all further names. Where the parameters are in the order of a signature, the flag with which the
places are laid out is the section in which the reader is.
-/

namespace ApiPage

open Text (behind? before?)

/-! ### Signatures -/

/-- May a parameter of a kind stand before one of another? No two parameters take all further positions, or
all further names. -/
def ParamKind.mayPrecede : ParamKind → ParamKind → Bool
  | .positional, _ => true
  | .flexible, k => k ≠ .positional
  | .args, k | .keyword, k => k = .keyword ∨ k = .kwargs
  | .kwargs, _ => false

namespace Params

/-- The parameters stand in the order of a signature. -/
def InOrder (ps : List Param) : Prop :=
  ps.Pairwise fun p q => p.kind.mayPrecede q.kind = true

instance : DecidablePred InOrder := fun ps =>
  inferInstanceAs (Decidable (ps.Pairwise fun p q => p.kind.mayPrecede q.kind = true))

/-- A name in which nothing of a declaration can be found, as every identifier is. -/
structure PlainName (name : Str) : Prop where
  ne_empty : name ≠ ""
  noBlank : .char ' ' ∉ name.toList
  noColon : .char ':' ∉ name.toList
  noStar : .char '*' ∉ name.toList
  noSlash : .char '/' ∉ name.toList

instance : DecidablePred PlainName := fun name =>
  decidable_of_iff (name ≠ "" ∧ .char ' ' ∉ name.toList ∧ .char ':' ∉ name.toList ∧
      .char '*' ∉ name.toList ∧ .char '/' ∉ name.toList)
    ⟨fun ⟨ne_empty, noBlank, noColon, noStar, noSlash⟩ => ⟨ne_empty, noBlank, noColon, noStar, noSlash⟩,
      fun ⟨ne_empty, noBlank, noColon, noStar, noSlash⟩ => ⟨ne_empty, noBlank, noColon, noStar, noSlash⟩⟩

/-! ### The places of the lines -/

/-- What stands on a line between the indent and the comma at its end. -/
def placeOnLine? (indent line : Str) : Option Str :=
  (behind? indent line).bind (before? ",")

/-- What stands in the places of a parameter list in lines. -/
def placesOnLines? (indent text : Str) : Option (List Str) :=
  (Text.endedLines? text).bind fun lines => lines.mapM (placeOnLine? indent)

/-- The places are read off a parameter list in lines. -/
theorem placesOnLines?_linesText {indent : Str} {ps : List Param} (hindent : .char '\n' ∉ indent.toList)
    (h : ∀ p ∈ ps, .char '\n' ∉ p.text.toList) :
    placesOnLines? indent (linesText indent ps) = some ((entries ps).map Entry.text) := by
  have hlines : linesText indent ps =
      Text.concat (((entries ps).map fun e => indent ++ (e.text ++ ",")).map (· ++ "\n")) := by
    have hcomma : Str.whole ",\n" = "," ++ "\n" := rfl
    simp only [linesText, List.map_map, Function.comp_def, hcomma, Str.append_assoc]
  have hended : ∀ line ∈ (entries ps).map fun e => indent ++ (e.text ++ ","), .char '\n' ∉ line.toList := by
    intro line hline
    obtain ⟨e, he, rfl⟩ := List.mem_map.mp hline
    simp [Str.toList_append, hindent, not_mem_text_of_mem_entries h he]
  rw [placesOnLines?, hlines, Text.endedLines?_ended hended, Option.bind_some]
  exact Text.mapM_map_eq_some fun e _ => by simp [placeOnLine?]

/-! ### Names -/

/-- Does what can follow a name come here, a type or a default? -/
def endsName (cs : List CodePoint) : Bool :=
  (Str.whole ": ").toList.isPrefixOf cs || (Str.whole " = ").toList.isPrefixOf cs

/-- The characters up to a type, a default or the end. -/
def nameChars : List CodePoint → List CodePoint
  | [] => []
  | c :: cs => if endsName (c :: cs) then [] else c :: nameChars cs

/-- The name with which a place begins. -/
def nameOf (place : Str) : Str :=
  Str.ofList (nameChars place.toList)

theorem nameChars_append {name rest : List CodePoint} (hname : ∀ c ∈ name, c ≠ ':' ∧ c ≠ ' ')
    (hrest : rest = [] ∨ endsName rest = true) : nameChars (name ++ rest) = name := by
  induction name with
  | nil =>
    cases rest with
    | nil => rfl
    | cons c cs => simpa [nameChars] using hrest
  | cons c name ih =>
    obtain ⟨hc, hcs⟩ := List.forall_mem_cons.mp hname
    have hgoes : endsName (c :: (name ++ rest)) = false := by
      simp [endsName, List.isPrefixOf, Ne.symm hc.1, Ne.symm hc.2]
    rw [List.cons_append, nameChars, hgoes, ih hcs]
    simp

/-- A parameter is written as its name with the stars of its kind, and what can follow a name. -/
theorem exists_text_eq (p : Param) :
    ∃ rest : Str, p.text = p.starredName ++ rest ∧ (rest = "" ∨ endsName rest.toList = true) := by
  refine ⟨Param.typeSuffix ": " p.ty ++ (p.default.map (Str.whole " = " ++ ·)).getD "", ?_, ?_⟩
  · rw [Param.text, Str.append_assoc]
    cases p.default <;> rfl
  · unfold Param.typeSuffix
    split
    · cases p.default with
      | none => exact .inl rfl
      | some d => simp [endsName, List.isPrefixOf, Str.toList_append]
    · simp [endsName, List.isPrefixOf, Str.toList_append]

theorem nameOf_append {name rest : Str} (hname : PlainName name)
    (hrest : rest = "" ∨ endsName rest.toList = true) : nameOf (name ++ rest) = name := by
  have hchars : ∀ c ∈ name.toList, c ≠ ':' ∧ c ≠ ' ' := fun c hc =>
    ⟨fun heq => hname.noColon (heq ▸ hc), fun heq => hname.noBlank (heq ▸ hc)⟩
  rw [nameOf, Str.toList_append, nameChars_append hchars (hrest.imp_left fun h => by simp [h])]
  exact Str.ofList_toList

/-! ### Kinds -/

/-- The names and kinds at the places behind a slash; `byName` tells that what is bound by name only has been
opened. -/
def readBehind (byName : Bool) : List Str → List (Str × ParamKind)
  | [] => []
  | place :: places =>
    if place = "*" then readBehind true places
    else match behind? "**" place with
      | some rest => (nameOf rest, .kwargs) :: readBehind byName places
      | none => match behind? "*" place with
        | some rest => (nameOf rest, .args) :: readBehind true places
        | none => (nameOf place, if byName then .keyword else .flexible) :: readBehind byName places

/-- The names and kinds at places: those before a slash are bound by position only. -/
def readPlaces (places : List Str) : List (Str × ParamKind) :=
  if .whole "/" ∈ places then
    (places.takeWhile (· ≠ .whole "/")).map (fun place => (nameOf place, .positional)) ++
      readBehind false (places.dropWhile (· ≠ .whole "/")).tail
  else readBehind false places

/-- The names and kinds of the parameters of a list in lines. -/
def readSignature? (indent text : Str) : Option (List (Str × ParamKind)) :=
  (placesOnLines? indent text).map readPlaces

theorem PlainName.exists_cons {name : Str} (h : PlainName name) :
    ∃ c cs, name.toList = c :: cs ∧ c ≠ '*' ∧ c ≠ '/' := by
  have hne : name.toList ≠ [] := fun hnil => h.ne_empty (Str.toList_eq_nil_iff.mp hnil)
  obtain ⟨c, cs, hcons⟩ := List.exists_cons_of_ne_nil hne
  have hc : c ∈ name.toList := hcons ▸ List.mem_cons_self
  exact ⟨c, cs, hcons, fun heq => h.noStar (heq ▸ hc), fun heq => h.noSlash (heq ▸ hc)⟩

/-- A name does not begin with a star. -/
theorem PlainName.behind?_star {name : Str} (h : PlainName name) (rest : Str) :
    behind? "*" (name ++ rest) = none := by
  obtain ⟨c, cs, hcons, hc, -⟩ := h.exists_cons
  rw [Option.eq_none_iff_forall_ne_some]
  intro t ht
  have hchars : c :: (cs ++ rest.toList) = .char '*' :: t.toList := by
    rw [← List.cons_append, ← hcons, ← Str.toList_append, Text.behind?_eq_some.mp ht, Str.toList_append]
    rfl
  exact hc (List.cons_eq_cons.mp hchars).1

/-- Two stars are a star behind a star. -/
theorem behind?_stars (place : Str) : behind? "**" place = (behind? "*" place).bind (behind? "*") :=
  Text.behind?_of_append "*" "*" place

theorem readBehind_of_behind? {place : Str} (h : behind? "*" place = none) (byName : Bool)
    (places : List Str) : readBehind byName (place :: places) =
      (nameOf place, if byName then .keyword else .flexible) :: readBehind byName places := by
  have hstar : place ≠ "*" := by
    rintro rfl
    exact absurd h (by decide)
  rw [readBehind, if_neg hstar, behind?_stars, h]
  rfl

theorem readBehind_star {rest : Str} (h : behind? "*" rest = none) (hrest : rest ≠ "") (byName : Bool)
    (places : List Str) :
    readBehind byName (("*" ++ rest) :: places) = (nameOf rest, .args) :: readBehind true places := by
  have hstar : "*" ++ rest ≠ "*" := fun heq => hrest ((Str.append_right_inj "*").mp heq)
  rw [readBehind, if_neg hstar, behind?_stars, Text.behind?_append, Option.bind_some, h]

theorem readBehind_stars (rest : Str) (byName : Bool) (places : List Str) :
    readBehind byName (("**" ++ rest) :: places) = (nameOf rest, .kwargs) :: readBehind byName places := by
  have hstar : "**" ++ rest ≠ "*" := by
    rw [Ne, ← Str.toList_inj, Str.toList_append]
    simp
  rw [readBehind, if_neg hstar, Text.behind?_append]

/-- The place of a parameter tells its name, and its kind if it stands in the right section. -/
theorem readBehind_param {p : Param} {byName : Bool} (hname : PlainName p.name) (places : List Str)
    (hk : p.kind ≠ .positional) (hkeyword : p.kind = .keyword → byName = true)
    (hflexible : p.kind = .flexible → byName = false) :
    readBehind byName (p.text :: places) =
      (p.name, p.kind) :: readBehind (byName || p.kind = .args) places := by
  obtain ⟨rest, htext, hrest⟩ := exists_text_eq p
  have hread : nameOf (p.name ++ rest) = p.name := nameOf_append hname hrest
  have hstar : behind? "*" (p.name ++ rest) = none := hname.behind?_star rest
  match hkind : p.kind with
  | .positional => exact absurd hkind hk
  | .flexible =>
    have hstarred : p.starredName = p.name := by simp [Param.starredName, hkind]
    rw [htext, hstarred, readBehind_of_behind? hstar, hread, hflexible hkind]
    rfl
  | .keyword =>
    have hstarred : p.starredName = p.name := by simp [Param.starredName, hkind]
    rw [htext, hstarred, readBehind_of_behind? hstar, hread, hkeyword hkind]
    rfl
  | .args =>
    have hstarred : p.starredName = "*" ++ p.name := by simp [Param.starredName, hkind]
    have hne : p.name ++ rest ≠ "" := fun h => hname.ne_empty (Str.append_eq_empty_iff.mp h).1
    rw [htext, hstarred, Str.append_assoc, readBehind_star hstar hne, hread]
    simp
  | .kwargs =>
    have hstarred : p.starredName = "**" ++ p.name := by simp [Param.starredName, hkind]
    rw [htext, hstarred, Str.append_assoc, readBehind_stars, hread]
    simp

/-! ### Sections -/

variable {ps : List Param} {p : Param} {byName : Bool}

theorem mayPrecede_keyword {k l : ParamKind} (hk : k = .keyword ∨ k = .args) (h : k.mayPrecede l = true) :
    l = .keyword ∨ l = .kwargs := by
  rcases hk with rfl | rfl <;> simpa [ParamKind.mayPrecede] using h

/-- A star in front of a parameter opens what is bound by name only. -/
theorem readBehind_starBefore (byName : Bool) (p : Param) (places : List Str) :
    readBehind byName ((starBefore byName p).map Entry.text ++ places) =
      readBehind (byName || p.kind = .keyword) places := by
  unfold starBefore
  split
  · next h => simp [readBehind, Entry.text, h]
  · next h => cases byName <;> simp_all

/-- Behind the slash, the flag of the layout is the section in which the reader is: once what is bound by name
only has been announced, there is nothing else but further names. -/
theorem readBehind_entriesFrom (ho : InOrder ps) (hn : ∀ p ∈ ps, PlainName p.name)
    (hnone : ∀ p ∈ ps, p.kind ≠ .positional)
    (hopen : byName = true → ∀ p ∈ ps, p.kind = .keyword ∨ p.kind = .kwargs) :
    readBehind byName ((entriesFrom byName ps).map Entry.text) = ps.map fun p => (p.name, p.kind) := by
  induction ps generalizing byName with
  | nil => rfl
  | cons p ps ih =>
    obtain ⟨hfirst, ho⟩ := List.pairwise_cons.mp ho
    obtain ⟨hname, hn⟩ := List.forall_mem_cons.mp hn
    obtain ⟨hk, hnone⟩ := List.forall_mem_cons.mp hnone
    have hflexible : p.kind = .flexible → (byName || p.kind = .keyword) = false := by
      intro hkind
      cases byName with
      | false => simp [hkind]
      | true => simpa [hkind] using hopen rfl p List.mem_cons_self
    have hrest : (byName || p.kind = .keyword || p.kind = .args) = true →
        ∀ q ∈ ps, q.kind = .keyword ∨ q.kind = .kwargs := by
      intro h q hq
      simp only [Bool.or_eq_true, decide_eq_true_eq] at h
      rcases h with (h | h) | h
      · exact hopen h q (List.mem_cons_of_mem p hq)
      · exact mayPrecede_keyword (.inl h) (hfirst q hq)
      · exact mayPrecede_keyword (.inr h) (hfirst q hq)
    rw [entriesFrom_of_ne byName hk, List.map_append, List.map_cons, readBehind_starBefore, Entry.text,
      readBehind_param hname _ hk (by simp +contextual) hflexible, ih ho hn hnone hrest, List.map_cons]

/-! ### The slash -/

theorem InOrder.not_positional (ho : InOrder ps) (h : startsPositional ps = false) :
    ∀ p ∈ ps, p.kind ≠ .positional := by
  cases ps with
  | nil => simp
  | cons p ps =>
    have hp : p.kind ≠ .positional := by simpa [startsPositional] using h
    refine List.forall_mem_cons.mpr ⟨hp, fun q hq hqk => ?_⟩
    have hpq := (List.pairwise_cons.mp ho).1 q hq
    rw [hqk] at hpq
    cases hk : p.kind <;> simp_all [ParamKind.mayPrecede]

theorem text_ne_slash (hname : PlainName p.name) : p.text ≠ "/" := by
  obtain ⟨rest, htext, -⟩ := exists_text_eq p
  obtain ⟨c, cs, hcons, -, hc⟩ := hname.exists_cons
  rw [htext, Ne, ← Str.toList_inj, Str.toList_append]
  unfold Param.starredName
  cases p.kind <;> simp [Str.toList_append, hcons, hc]

/-- A place holds a slash just where there is a parameter bound by position only. -/
theorem slash_mem_places (hn : ∀ p ∈ ps, PlainName p.name) :
    .whole "/" ∈ (entriesFrom byName ps).map Entry.text ↔ ∃ p ∈ ps, p.kind = .positional := by
  have hslash : Entry.slash ∈ entriesFrom byName ps ↔ ∃ p ∈ ps, p.kind = .positional := slash_mem_entriesFrom
  rw [← hslash]
  constructor
  · intro h
    obtain ⟨e, he, htext⟩ := List.mem_map.mp h
    cases e with
    | param p => exact absurd htext (text_ne_slash (hn p (mem_of_param? he rfl)))
    | slash => exact he
    | star => exact absurd htext (by decide)
  · intro h
    exact List.mem_map.mpr ⟨.slash, h, rfl⟩

theorem nameOf_text (hname : PlainName p.name) (hk : p.kind = .positional) : nameOf p.text = p.name := by
  obtain ⟨rest, htext, hrest⟩ := exists_text_eq p
  have hstarred : p.starredName = p.name := by simp [Param.starredName, hk]
  rw [htext, hstarred, nameOf_append hname hrest]

theorem readPlaces_cons {place : Str} {places : List Str} (hp : place ≠ "/") (h : .whole "/" ∈ places) :
    readPlaces (place :: places) = (nameOf place, .positional) :: readPlaces places := by
  rw [readPlaces, readPlaces, if_pos h, if_pos (List.mem_cons_of_mem place h)]
  simp [hp]

theorem readPlaces_end {place : Str} (hp : place ≠ "/") (places : List Str) :
    readPlaces (place :: "/" :: places) = (nameOf place, .positional) :: readBehind false places := by
  simp [readPlaces, hp]

/-- The places of parameters in the order of a signature tell their names and kinds. -/
theorem readPlaces_entries (ho : InOrder ps) (hn : ∀ p ∈ ps, PlainName p.name) :
    readPlaces ((entries ps).map Entry.text) = ps.map fun p => (p.name, p.kind) := by
  unfold entries
  induction ps with
  | nil => rfl
  | cons p ps ih =>
    have horest : InOrder ps := (List.pairwise_cons.mp ho).2
    obtain ⟨hname, hnrest⟩ := List.forall_mem_cons.mp hn
    by_cases hk : p.kind = .positional
    · have hread := nameOf_text hname hk
      cases hnext : startsPositional ps with
      | true =>
        obtain ⟨q, rest, hps, hq⟩ := startsPositional_eq_true.mp hnext
        have hslash : .whole "/" ∈ (entriesFrom false ps).map Entry.text :=
          (slash_mem_places hnrest).mpr ⟨q, hps ▸ List.mem_cons_self, hq⟩
        rw [entriesFrom_within hk hnext, List.map_cons, Entry.text,
          readPlaces_cons (text_ne_slash hname) hslash, hread, ih horest hnrest, List.map_cons, hk]
      | false =>
        have hbehind : readBehind false ((entriesFrom false ps).map Entry.text) = _ :=
          readBehind_entriesFrom horest hnrest (horest.not_positional hnext) nofun
        rw [entriesFrom_end hk hnext, List.map_cons, List.map_cons, Entry.text, Entry.text,
          readPlaces_end (text_ne_slash hname), hread, hbehind, List.map_cons, hk]
    · have hnone : ∀ q ∈ p :: ps, q.kind ≠ .positional := ho.not_positional (decide_eq_false hk)
      have hslash : .whole "/" ∉ (entriesFrom false (p :: ps)).map Entry.text := by
        rw [slash_mem_places hn]
        rintro ⟨q, hq, hqk⟩
        exact hnone q hq hqk
      rw [readPlaces, if_neg hslash]
      exact readBehind_entriesFrom ho hn hnone nofun

/-- **A signature tells its parameters.** If the parameters are in the order of a signature, under plain names
and each written in one line, then the lines of their list, whatever the indent, tell the name and the kind of
each of them. -/
theorem readSignature?_linesText {indent : Str} (ho : InOrder ps) (hn : ∀ p ∈ ps, PlainName p.name)
    (hlines : ∀ p ∈ ps, .char '\n' ∉ p.text.toList) (hindent : .char '\n' ∉ indent.toList) :
    readSignature? indent (linesText indent ps) = some (ps.map fun p => (p.name, p.kind)) := by
  rw [readSignature?, placesOnLines?_linesText hindent hlines, Option.map_some, readPlaces_entries ho hn]

namespace Marked

/-- A signature with both markers, and a default that looks like further parameters. -/
def params : List Param :=
  [{ name := "a", kind := .positional, ty := [.name "int"] },
    { name := "b", default := some (.whole "f(x), /, **c") }, { name := "key", kind := .keyword },
    { name := "more", kind := .kwargs, ty := Ty.dictOf [.name "str"] Ty.any }]

/-- What its lines tell. -/
def told : List (Str × ParamKind) :=
  [("a", .positional), ("b", .flexible), ("key", .keyword), ("more", .kwargs)]

end Marked

open Marked in
/-- The lines of a signature, and what they tell. -/
theorem readSignature?_linesText_marked : InOrder params ∧ (∀ p ∈ params, PlainName p.name) ∧
    (∀ p ∈ params, .char '\n' ∉ p.text.toList) ∧ .char '\n' ∉ (Str.whole "\t").toList ∧
    linesText "\t" params =
      "\ta: int,\n\t/,\n\tb = f(x), /, **c,\n\t*,\n\tkey,\n\t**more: dict[str, Any],\n" ∧
    readSignature? "\t" (linesText "\t" params) = some told := by
  have ho : InOrder params := by decide
  have hn : ∀ p ∈ params, PlainName p.name := by decide +kernel
  have hlines : ∀ p ∈ params, .char '\n' ∉ p.text.toList := by decide +kernel
  exact ⟨ho, hn, hlines, by decide, by decide +kernel, readSignature?_linesText ho hn hlines (by decide)⟩

end Params

end ApiPage
