import ApiPage.Cli.Run
import ApiPage.Proofs.Item.Represents
import ApiPage.Proofs.Yaml.Blank
import ApiPage.Proofs.Sorting.Faults

/-!
# Pages of items that were read

An item that was read has a page unless two of the names that stand on it have no order: its types all
have a text, and what a type holds are functions and properties. Names of one sort, all texts or all
numbers, always have an order; a text and a number do not.
-/

namespace ApiPage

/-! ### Everything that was read has a text -/

theorem Function.Represents.canonical_params {es : Entries} {f : Function} (h : f.Represents es) :
    ∀ p ∈ f.params, p.ty.Canonical := by
  obtain ⟨vs, -, hparams⟩ := h.params
  intro p hp
  obtain ⟨v, -, hrep⟩ := (Reading.exists_of_forall₂ hparams).2 p hp
  exact hrep.ty

theorem Function.Represents.hasText {es : Entries} {f : Function} (h : f.Represents es) :
    f.hasText = true := by
  simp only [Function.hasText, Params.hasText, Bool.and_eq_true, List.all_eq_true]
  exact ⟨fun p hp => (h.canonical_params p hp).hasText, h.returns.ty.hasText⟩

theorem Ty.RepresentsOwn.hasText {loc : Location} {es : Entries} {t : Ty} (h : t.RepresentsOwn loc es) :
    Ty.hasText t = true := by
  cases h with
  | listed _ ht =>
    cases ht with
    | unnamed => rfl
    | named => rfl
  | said _ _ hc => exact hc.hasText

/-- As it stands on the page of a module, an item that was read has a text. -/
theorem Item.Represents.hasText {loc : Location} {es : Entries} {i : Item} {m : Member}
    (h : i.Represents loc es) (hm : i.asMember = some m) : m.hasText = true := by
  cases h with
  | module => cases hm
  | type _ _ _ _ _ own =>
    cases hm
    exact own.hasText
  | function _ hf =>
    cases hm
    exact hf.hasText
  | property _ hp =>
    cases hm
    exact hp.ty.hasText

theorem Item.RepresentMembers.exists_represents : {loc : Location} → {es : Entries} →
    {ms : List (Scalar × Item)} → Item.RepresentMembers loc es ms →
    ∀ m ∈ ms, ∃ place sub, m.2.Represents place sub
  | _, _, _, .nil => by simp
  | _, _, _, .cons first others =>
    List.forall_mem_cons.mpr ⟨⟨_, _, first⟩, others.exists_represents⟩

/-- `i.ShownAs m`: on the page of the item that holds it, `i` stands as `m`. A function and a property stand
there as they are, and a type as a property of the type that it is; a module has no form. -/
inductive Item.ShownAs : Item → Member → Prop
  | function (f : Function) : ShownAs (.function f) (.function f)
  | property (p : Property) : ShownAs (.property p) (.property p)
  | type (docs : Option Docs) (c : Option Function) (ms : List (Scalar × Item)) (t : Ty) :
      ShownAs (.type docs c ms t) (.property ⟨t, docs⟩)

theorem Item.asMember_eq_some {i : Item} {m : Member} : i.asMember = some m ↔ i.ShownAs m := by
  constructor
  · intro h
    cases i with
    | module => cases h
    | type docs c ms t => exact Option.some.inj h ▸ .type docs c ms t
    | function f => exact Option.some.inj h ▸ .function f
    | property p => exact Option.some.inj h ▸ .property p
  · rintro (_ | _ | _)
    all_goals rfl

/-- Members that have a text where they stand on a page. -/
def HaveText (ms : List (Scalar × Item)) : Prop :=
  ∀ e ∈ ms, ∀ m, e.2.ShownAs m → m.hasText = true

theorem haveText_iff {ms : List (Scalar × Item)} :
    HaveText ms ↔ ∀ e ∈ ms, ∀ m ∈ e.2.asMember, m.hasText = true := by
  simp only [HaveText, Option.mem_def, Item.asMember_eq_some]

theorem Item.RepresentMembers.haveText {loc : Location} {es : Entries} {ms : List (Scalar × Item)}
    (h : Item.RepresentMembers loc es ms) : HaveText ms := by
  intro e he m hm
  obtain ⟨place, sub, hrep⟩ := h.exists_represents e he
  exact hrep.hasText (Item.asMember_eq_some.mpr hm)

/-! ### The names that a page puts in order -/

/-- The names of the members that stand on the page of an item. -/
def Item.pageNames : Item → List Scalar
  | .module _ ms => (pageMembers ms).map (·.1)
  | .type _ _ ms _ => ms.map (·.1)
  | _ => []

theorem sortByName_fault {α : Type} {es : List (Scalar × α)} {cause : Disorder}
    (h : sortByName es = .error cause) :
    ∃ k ∈ es.map (·.1), ∃ l ∈ es.map (·.1), k.less l = .error cause := by
  unfold sortByName at h
  split at h
  · cases h
  · obtain ⟨e, he, f, hf, hless⟩ := Sorting.sort_faults h
    exact ⟨e.1, List.mem_map_of_mem he, f.1, List.mem_map_of_mem hf, hless⟩

/-- Names are put in order, or two of them have none. -/
theorem orderByName_cases {α : Type} (es : List (Scalar × α)) :
    (∃ sorted, orderByName es = .ok sorted ∧ sorted.Perm es) ∨
      ∃ cause, orderByName es = .error (.unorderedNames cause) ∧
        ∃ k ∈ es.map (·.1), ∃ l ∈ es.map (·.1), k.less l = .error cause := by
  unfold orderByName
  cases h : sortByName es with
  | ok sorted => exact .inl ⟨sorted, rfl, sortByName_perm h⟩
  | error cause => exact .inr ⟨cause, rfl, sortByName_fault h⟩

theorem orderByName_perm {α : Type} {es sorted : List (Scalar × α)}
    (h : orderByName es = .ok sorted) : sorted.Perm es := by
  rcases orderByName_cases es with ⟨sorted', hs, hperm⟩ | ⟨cause, hs, -⟩
  · obtain rfl : sorted' = sorted := Except.ok.inj (hs.symm.trans h)
    exact hperm
  · exact absurd (hs.symm.trans h) (by simp)

/-! ### Pages -/

variable {style : Style} {name : Str} {docs : Option Docs}

/-- As a member of a type stands a function or property that has a text. -/
theorem toMember_eq_ok {i : Item} {m : Member} : i.toMember = .ok m ↔
    i.IsTypeMember ∧ i.asMember = some m ∧ m.hasText = true := by
  have hwritable : ∀ m' : Member, m'.writable = .ok m ↔ m' = m ∧ m.hasText = true := by
    intro m'
    unfold Member.writable
    by_cases ht : m'.hasText = true
    · rw [if_pos ht, Except.ok.injEq]
      exact ⟨fun h => ⟨h, h ▸ ht⟩, And.left⟩
    · rw [if_neg ht]
      refine ⟨fun h => (by cases h), ?_⟩
      rintro ⟨rfl, h⟩
      exact absurd h ht
  cases i with
  | module => simp [Item.toMember, Item.asMember]
  | type => simp [Item.toMember, Item.asMember, Item.IsTypeMember]
  | function f => simp [Item.toMember, Item.asMember, Item.IsTypeMember, hwritable]
  | property p => simp [Item.toMember, Item.asMember, Item.IsTypeMember, hwritable]

theorem toMember_of_isTypeMember {i : Item} (hi : i.IsTypeMember)
    (ht : ∀ m, i.asMember = some m → m.hasText = true) :
    ∃ m, i.asMember = some m ∧ i.toMember = .ok m := by
  obtain ⟨m, hm⟩ : ∃ m, i.asMember = some m := by
    rcases hi with ⟨f, rfl⟩ | ⟨p, rfl⟩
    · exact ⟨_, rfl⟩
    · exact ⟨_, rfl⟩
  exact ⟨m, hm, toMember_eq_ok.mpr ⟨hi, hm, ht m hm⟩⟩

/-- Functions and properties that have a text stand as they are. -/
theorem toMembers_eq_ok {ms : List (Scalar × Item)} (hin : ∀ m ∈ ms, m.2.IsTypeMember)
    (ht : HaveText ms) : toMembers ms = .ok (pageMembers ms) := by
  induction ms with
  | nil => rfl
  | cons e ms ih =>
    obtain ⟨hfirst, hin⟩ := List.forall_mem_cons.mp hin
    obtain ⟨htext, ht⟩ := List.forall_mem_cons.mp ht
    obtain ⟨m, hm, hto⟩ := toMember_of_isTypeMember hfirst fun m hm => htext m (Item.asMember_eq_some.mp hm)
    have hcons : pageMembers (e :: ms) = (e.1, m) :: pageMembers ms := by
      rw [pageMembers, List.filterMap_cons, hm]
      rfl
    rw [hcons]
    exact bind_eq_ok.mpr ⟨m, hto, bind_eq_ok.mpr ⟨_, ih hin ht, rfl⟩⟩

/-- The page of a function or property is its section. -/
theorem itemPage_of_toMember {i : Item} {m : Member} (h : i.toMember = .ok m) :
    itemPage style name i = .ok (m.section style name) := by
  cases i with
  | module => cases h
  | type => cases h
  | function f => exact bind_eq_ok.mpr ⟨m, h, rfl⟩
  | property p => exact bind_eq_ok.mpr ⟨m, h, rfl⟩

theorem Item.Represents.itemPage_of_isTypeMember {loc : Location} {es : Entries} {i : Item}
    (h : i.Represents loc es) (hi : i.IsTypeMember) : ∃ text, itemPage style name i = .ok text := by
  obtain ⟨m, -, hto⟩ := toMember_of_isTypeMember hi fun m hm => h.hasText hm
  exact ⟨_, itemPage_of_toMember hto⟩

/-- The page of a module whose members have texts is made of the blocks of its members in order. -/
theorem itemPage_module {ms : List (Scalar × Item)} (ht : HaveText ms) :
    itemPage style name (.module docs ms) = (orderByName (pageMembers ms)).map fun sorted =>
      Page.text ⟨name, docs.map Docs.combined, memberBlocks style "" sorted⟩ := by
  rw [itemPage, modulePage]
  rcases orderByName_cases (pageMembers ms) with ⟨sorted, hs, hperm⟩ | ⟨cause, hs, -⟩
  · have hall : (sorted.all fun m => m.2.hasText) = true := by
      rw [List.all_eq_true]
      intro m hm
      have hmem := hperm.mem_iff.mp hm
      obtain ⟨e, he, hmap⟩ := List.mem_filterMap.mp hmem
      obtain ⟨m', hm', rfl⟩ := Option.map_eq_some_iff.mp hmap
      exact ht e he m' (Item.asMember_eq_some.mp hm')
    rw [hs]
    simp only [bind, Except.bind, hall, if_true, Except.map]
  · rw [hs]
    rfl

/-- The page of a type that holds functions and properties with texts is made of its own block and the
blocks of its members in order. -/
theorem itemPage_type {ms : List (Scalar × Item)} {c : Option Function} {t : Ty}
    (hc : c.all Function.hasText = true) (hin : ∀ m ∈ ms, m.2.IsTypeMember) (ht : HaveText ms) :
    itemPage style name (.type docs c ms t) = (orderByName ms).map fun sorted =>
      Page.text ⟨"`" ++ name ++ "` type", docs.map Docs.combined,
        (c.map (·.bareSection style name)).toList ++
          memberBlocks style (name ++ ".") (pageMembers sorted)⟩ := by
  rw [itemPage, typePage, if_pos hc, containerPage]
  rcases orderByName_cases ms with ⟨sorted, hs, hperm⟩ | ⟨cause, hs, -⟩
  · have hto : toMembers sorted = .ok (pageMembers sorted) :=
      toMembers_eq_ok (fun m hm => hin m (hperm.mem_iff.mp hm)) fun e he => ht e (hperm.mem_iff.mp he)
    rw [hs]
    simp only [bind, Except.bind, hto, Except.map]
  · rw [hs]
    rfl

theorem Function.RepresentsConstructor.hasText {v : Value} {c : Option Function}
    (h : Function.RepresentsConstructor v c) : c.all Function.hasText = true := by
  cases h with
  | absent => rfl
  | given hf => exact hf.hasText

/-- An item that represents a document has a page, or two names on it have no order. -/
theorem Item.Represents.itemPage_cases {loc : Location} {es : Entries} {i : Item}
    (h : i.Represents loc es) (style : Style) (name : Str) :
    (∃ text, itemPage style name i = .ok text) ∨
      ∃ cause, itemPage style name i = .error (.unorderedNames cause) ∧
        ∃ k ∈ i.pageNames, ∃ l ∈ i.pageNames, k.less l = .error cause := by
  have hown : i.IsTypeMember → ∃ text, itemPage style name i = .ok text := h.itemPage_of_isTypeMember
  cases h with
  | @module _ _ _ d ms _ _ members _ =>
    rw [itemPage_module members.haveText]
    rcases orderByName_cases (pageMembers ms) with ⟨sorted, hs, -⟩ | ⟨cause, hs, hnames⟩
    · exact .inl ⟨_, by rw [hs]; rfl⟩
    · exact .inr ⟨cause, by rw [hs]; rfl, hnames⟩
  | @type _ _ _ d c ms t _ _ members fit constructor _ _ =>
    rw [itemPage_type constructor.hasText fit members.haveText]
    rcases orderByName_cases ms with ⟨sorted, hs, -⟩ | ⟨cause, hs, hnames⟩
    · exact .inl ⟨_, by rw [hs]; rfl⟩
    · exact .inr ⟨cause, by rw [hs]; rfl, hnames⟩
  | @function _ _ f _ _ => exact .inl (hown (.inl ⟨f, rfl⟩))
  | @property _ _ p _ _ => exact .inl (hown (.inr ⟨p, rfl⟩))

/-! ### Runs -/

theorem ModelFile.represents_of_read {yaml : Yaml.Reader} {fs : Files} {p : Path} {name : Str} {i : Item}
    (h : ModelFile.read yaml fs p = .ok (name, i)) : ∃ es, i.Represents {} es := by
  unfold ModelFile.read at h
  split at h
  · cases h
  · next text _ =>
    obtain ⟨v, -, h⟩ := bind_eq_ok.mp h
    split at h
    · next es =>
      cases hread : ModelFile.ofEntries p es with
      | error e => exact absurd h (by simp [hread])
      | ok named =>
        obtain rfl : named = (name, i) := by simpa [hread] using h
        obtain ⟨n, -, hread⟩ := bind_eq_ok.mp hread
        obtain ⟨i', hi, hread⟩ := bind_eq_ok.mp hread
        obtain ⟨rfl, rfl⟩ : n = name ∧ i' = i := by simpa using hread
        obtain ⟨es', -, hrep⟩ := Reading.represents_of_item (.map es) {} hi
        exact ⟨es', hrep⟩
    · cases h

namespace Cli

variable {host : Host} {fs : Files} {args : List String} {fault : PageFault}

theorem represents_of_readInput {r : Request} {rs : List Record} {input : Input}
    (h : readInput host fs r = (rs, .ok input)) : ∃ es, input.item.Represents {} es := by
  unfold readInput at h
  cases hs : Settings.read host.yaml host.home fs (settingsPath r) with
  | error e => simp [hs] at h
  | ok style =>
    cases hm : ModelFile.read host.yaml fs (Path.ofString r.path) with
    | error e => simp [hs, hm] at h
    | ok named =>
      obtain ⟨-, rfl⟩ : _ ∧ _ = input := by simpa [hs, hm] using h
      exact ModelFile.represents_of_read hm

/-- Of what a request shows, only the page of a whole item may be missing. -/
theorem page_of_show? {input : Input} {action : Action} {more : List Record}
    (h : show? input action = (more, .error (.page fault))) :
    itemPage input.style input.name input.item = .error fault := by
  have h := congrArg Prod.snd h
  match action with
  | .render none _ =>
    cases hp : itemPage input.style input.name input.item with
    | error fault' => simpa [show?, hp] using h
    | ok text => simp [show?, hp] at h
  | .render (some .blank) _ => simp [show?] at h
  | .render (some (.text path)) _ =>
    cases hs : input.item.select input.name path <;> simp [show?, hs] at h
  | .param .blank _ => simp [show?] at h
  | .param (.text path) .blank =>
    cases hs : input.item.selectFunction input.name path <;> simp [show?, hs] at h
  | .param (.text path) (.text param) =>
    cases hs : input.item.selectParam input.name path param <;> simp [show?, hs] at h

/-- Nothing that reading meets is the want of a page. -/
theorem ReadFault.crash?_ne_page (e : ReadFault) : e.crash? ≠ some (.page fault) := by
  unfold ReadFault.crash?
  split <;> simp

/-- A text that is there to give is no want of a page. -/
theorem give_ne_page (host : Host) (fs : Files) (r : Request) (rs : List Record) (text : Str) :
    (give host fs r rs text).ending ≠ .crash (.page fault) := by
  unfold give
  split
  · split <;> simp
  · split
    · simp
    · split <;> simp

/-- A run that ends for want of a page has read its input and could not lay it out. -/
theorem show?_of_run (h : (run host fs args).ending = .crash (.page fault)) : ∃ r rs input more,
    readInput host fs r = (rs, .ok input) ∧ show? input r.action = (more, .error (.page fault)) := by
  unfold run at h
  cases hr : Request.parse args with
  | error refusal => cases refusal <;> simp [hr] at h
  | ok r =>
    rw [hr] at h
    simp only [runRequest] at h
    cases hread : readInput host fs r with | mk rs read =>
    cases read with
    | error e =>
      simp only [hread, ReadFault.ending] at h
      split at h
      case h_1 crash hcrash =>
        obtain rfl : crash = .page fault := by simpa using h
        exact absurd hcrash (ReadFault.crash?_ne_page e)
      case h_2 => simp at h
    | ok input =>
      simp only [hread] at h
      cases hshow : show? input r.action with | mk more shown =>
      simp only [hshow] at h
      cases shown with
      | error e =>
        cases e with
        | select => simp at h
        | blankPath => simp at h
        | page fault' =>
          obtain rfl : fault' = fault := by simpa using h
          exact ⟨r, rs, input, more, hread, hshow⟩
      | ok text => exact absurd h (give_ne_page _ _ _ _ _)

/-- The program ends for want of a page only if two names on the page have no order. -/
theorem unorderedNames_of_run (h : (run host fs args).ending = .crash (.page fault)) :
    ∃ cause, fault = .unorderedNames cause := by
  obtain ⟨r, rs, input, more, hread, hshow⟩ := show?_of_run h
  obtain ⟨es, hrep⟩ := represents_of_readInput hread
  have hpage := page_of_show? hshow
  rcases hrep.itemPage_cases input.style input.name with ⟨text, ht⟩ | ⟨cause, hc, -⟩
  · exact absurd (ht.symm.trans hpage) (by simp)
  · exact ⟨cause, Except.error.inj (hpage.symm.trans hc)⟩

end Cli

/-! ### Names of one sort -/

/-- A number, truth values among them. -/
def Scalar.isNumber : Scalar → Bool
  | .bool _ | .int _ | .float _ => true
  | _ => false

theorem Scalar.exists_less_of_isText {k l : Scalar} (hk : k.isText = true) (hl : l.isText = true) :
    ∃ b, k.less l = .ok b := by
  cases k <;> cases hk
  cases l <;> cases hl
  exact ⟨_, rfl⟩

theorem Scalar.exists_less_of_isNumber {k l : Scalar} (hk : k.isNumber = true)
    (hl : l.isNumber = true) : ∃ b, k.less l = .ok b := by
  cases k <;> cases hk <;> cases l <;> cases hl
  all_goals exact ⟨_, rfl⟩

/-- Names of one sort: all of them are texts, or all of them are numbers. -/
def OneSort (names : List Scalar) : Prop :=
  (∀ k ∈ names, k.isText = true) ∨ ∀ k ∈ names, k.isNumber = true

theorem OneSort.exists_less {names : List Scalar} (h : OneSort names) {k l : Scalar} (hk : k ∈ names)
    (hl : l ∈ names) : ∃ b, k.less l = .ok b := by
  rcases h with h | h
  · exact Scalar.exists_less_of_isText (h k hk) (h l hl)
  · exact Scalar.exists_less_of_isNumber (h k hk) (h l hl)

/-- **An item that was read has a page unless two names on it have no order**; it has one if all the
names are texts or all are numbers. -/
theorem itemPage_of_readItem {loc : Location} {es : Entries} {i : Item} (h : readItem loc es = .ok i)
    (style : Style) (name : Str) :
    ((∃ text, itemPage style name i = .ok text) ∨
      ∃ cause, itemPage style name i = .error (.unorderedNames cause) ∧
        ∃ k ∈ i.pageNames, ∃ l ∈ i.pageNames, k.less l = .error cause) ∧
      (OneSort i.pageNames → ∃ text, itemPage style name i = .ok text) := by
  obtain ⟨es', -, hrep⟩ := Reading.represents_of_item (.map es) loc h
  have hcases := hrep.itemPage_cases style name
  refine ⟨hcases, fun hsort => ?_⟩
  rcases hcases with hpage | ⟨cause, -, k, hk, l, hl, hless⟩
  · exact hpage
  · obtain ⟨b, hb⟩ := hsort.exists_less hk hl
    exact absurd (hb.symm.trans hless) (by simp)

/-! ### A module of properties under any keys -/

/-- The document of a module that lists a property under each of some keys. -/
def propertiesDoc (keys : List Scalar) : Entries :=
  [(.text "kind", .text "module"),
    (.text "members", .map (keys.map fun k => (k, .map [(.text "kind", .text "property")])))]

def propertiesModule (keys : List Scalar) : Item :=
  .module none (keys.map fun k => (k, .property {}))

theorem readItem_propertiesDoc {keys : List Scalar} (h : ∀ k ∈ keys, k.writable = true)
    (loc : Location) : readItem loc (propertiesDoc keys) = .ok (propertiesModule keys) := by
  have hmembers : Reading.members loc false
      (keys.map fun k => (k, .map [(.text "kind", .text "property")])) =
        .ok (keys.map fun k => (k, .property {})) := by
    induction keys with
    | nil => rfl
    | cons k keys ih =>
      obtain ⟨hk, hkeys⟩ := List.forall_mem_cons.mp h
      have hfirst : Reading.item (loc.member k) (.map [(.text "kind", .text "property")]) =
          .ok (.property {}) := by
        unfold Reading.item
        rfl
      rw [List.map_cons, List.map_cons, Reading.members]
      exact bind_eq_ok.mpr ⟨_, Reading.writing_eq_ok.mpr ⟨by simpa using hk, hfirst⟩,
        bind_eq_ok.mpr ⟨_, ih hkeys, rfl⟩⟩
  unfold readItem Reading.item
  exact bind_eq_ok.mpr ⟨.module, rfl, bind_eq_ok.mpr ⟨_, hmembers, rfl⟩⟩

/-- A module whose keys are numbers of three kinds has a page. -/
theorem itemPage_of_readItem_numbers :
    readItem {} (propertiesDoc [.int 3, .float (.infinite true), .bool true]) =
        .ok (propertiesModule [.int 3, .float (.infinite true), .bool true]) ∧
      ∃ text, itemPage {} "m" (propertiesModule [.int 3, .float (.infinite true), .bool true]) =
        .ok text := by
  have hkeys : ∀ k ∈ [.int 3, .float (.infinite true), .bool true], Scalar.writable k = true := by
    decide +kernel
  have hread := readItem_propertiesDoc hkeys {}
  exact ⟨hread, (itemPage_of_readItem hread {} "m").2 (.inr (by decide))⟩

/-- A working directory with one model: a module of a property under a text and one under a number. -/
def mixedNamesFiles : Files :=
  ⟨["w"], [(["w"], .directory), (["w", "m.yml"],
    .file (Text.encodeUtf8 "kind: module\nmembers:\n  a: {kind: property}\n  1: {kind: property}\n"))], []⟩

/-- A text and a number as names: the model is read, but it has no page, and the program ends there. -/
theorem itemPage_mixedNames :
    readItem {} (propertiesDoc [.text "a", .int 1]) = .ok (propertiesModule [.text "a", .int 1]) ∧
      itemPage {} "m" (propertiesModule [.text "a", .int 1]) =
        .error (.unorderedNames (.sorts (.int 1) (.text "a"))) ∧
      (Cli.run (.bare Yaml.reader) mixedNamesFiles ["render", "m.yml"]).ending =
        .crash (.page (.unorderedNames (.sorts (.int 1) (.text "a")))) :=
  ⟨readItem_propertiesDoc (by decide +kernel) _, rfl, by decide +kernel⟩

end ApiPage
