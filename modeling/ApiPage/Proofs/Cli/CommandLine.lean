import ApiPage.Cli.Run

/-!
# How a command line is taken apart

A command line that is understood is made of options of the program, a command, and words that the command
reads on its own (`exists_leads_of_parse`, `parse_of_leads`). The options of the program are flags, so none
of them takes the command for its value.
-/

namespace ApiPage.Cli

/-! ### What a word is classified as -/

theorem switchNamed?_mem {switches : List Switch} {name : String} {s : Switch}
    (h : switchNamed? switches name = some s) : s ∈ switches := by
  obtain ⟨before, after, hnames, -⟩ := List.lookup_eq_some_iff.mp h
  have hmem : (name, s) ∈ namesOf switches := by simp [hnames]
  obtain ⟨t, ht, hn⟩ := List.mem_flatMap.mp hmem
  obtain ⟨n, -, heq⟩ := List.mem_map.mp hn
  obtain rfl : t = s := congrArg Prod.snd heq
  exact ht

theorem spelled?_mem {switches : List Switch} {cs : List Char} {w : Written}
    (h : spelled? switches cs = some w) : w.switch ∈ switches := by
  unfold spelled? at h
  split at h
  · next s hs =>
    obtain rfl := Option.some.inj h
    exact switchNamed?_mem hs
  · split at h
    · obtain ⟨s, hs, rfl⟩ := Option.map_eq_some_iff.mp h
      exact switchNamed?_mem hs
    · cases h

theorem candidates_mem {switches : List Switch} {cs : List Char} {w : Written}
    (h : w ∈ candidates switches cs) : w.switch ∈ switches := by
  have hnames : ∀ {f : String × Switch → Option Written}, w ∈ (namesOf switches).filterMap f →
      (∀ e v, f e = some v → v.switch = e.2) → w.switch ∈ switches := by
    intro f hw hf
    obtain ⟨e, he, hv⟩ := List.mem_filterMap.mp hw
    obtain ⟨t, ht, hn⟩ := List.mem_flatMap.mp he
    obtain ⟨n, -, rfl⟩ := List.mem_map.mp hn
    rw [hf _ _ hv]
    exact ht
  unfold candidates at h
  split at h
  · next rest =>
    generalize cutAtEquals ('-' :: '-' :: rest) = cut at h
    refine hnames h fun e v hv => ?_
    dsimp only at hv
    split at hv
    · obtain rfl := Option.some.inj hv
      rfl
    · cases hv
  · refine hnames h fun e v hv => ?_
    dsimp only at hv
    split at hv
    · obtain rfl := Option.some.inj hv
      rfl
    · cases hv
  · cases h

/-- A word is an argument or an option, and an option is one of those at hand. -/
theorem classify_cases {switches : List Switch} {s : String} {word : Word}
    (h : classify switches s = .ok word) : word = .argument s ∨ word = .option s none ∨
      ∃ w, word = .option s (some w) ∧ w.switch ∈ switches := by
  unfold classify at h
  dsimp only at h
  split at h
  · split at h
    · exact .inl (Except.ok.inj h).symm
    · split at h
      · next w hw => exact .inr (.inr ⟨w, (Except.ok.inj h).symm, spelled?_mem hw⟩)
      · split at h
        · next w hw =>
          exact .inr (.inr ⟨w, (Except.ok.inj h).symm, candidates_mem (hw ▸ List.mem_singleton_self w)⟩)
        · cases h
        · split at h
          · exact .inl (Except.ok.inj h).symm
          · exact .inr (.inl (Except.ok.inj h).symm)
  · exact .inl (Except.ok.inj h).symm

theorem words_cons_eq_ok {switches : List Switch} {s : String} {rest : List String} {ws : List Word} :
    words switches (s :: rest) = .ok ws ↔ s = "--" ∧ ws = .terminator :: rest.map .argument ∨
      s ≠ "--" ∧ ∃ word more, classify switches s = .ok word ∧ words switches rest = .ok more ∧
        ws = word :: more := by
  rw [words]
  by_cases hs : s = "--"
  · simp [hs, eq_comm]
  · rw [if_neg hs]
    constructor
    · intro h
      obtain ⟨word, hword, h⟩ := bind_eq_ok.mp h
      obtain ⟨more, hmore, h⟩ := bind_eq_ok.mp h
      exact .inr ⟨hs, word, more, hword, hmore, (Except.ok.inj h).symm⟩
    · rintro (⟨h, -⟩ | ⟨-, word, more, hword, hmore, rfl⟩)
      · exact absurd h hs
      · exact bind_eq_ok.mpr ⟨word, hword, bind_eq_ok.mpr ⟨more, hmore, rfl⟩⟩

theorem length_words {switches : List Switch} {ss : List String} {ws : List Word}
    (h : words switches ss = .ok ws) : ws.length = ss.length := by
  induction ss generalizing ws with
  | nil =>
    obtain rfl := Except.ok.inj h
    rfl
  | cons s rest ih =>
    rcases words_cons_eq_ok.mp h with ⟨-, rfl⟩ | ⟨-, word, more, -, hmore, rfl⟩
    · simp
    · rw [List.length_cons, List.length_cons, ih hmore]

/-- Words behind a word are refused with it. -/
theorem words_cons_of_error {switches : List Switch} {s : String} {word : Word} {rest : List String}
    {fault : UsageFault} (proper : s ≠ "--") (hword : classify switches s = .ok word)
    (h : words switches rest = .error fault) : words switches (s :: rest) = .error fault := by
  rw [words, if_neg proper, hword, h]
  rfl

/-- The name of a command is an argument. -/
theorem classify_command (c : Command) :
    c.word ≠ "--" ∧ classify outerSwitches c.word = .ok (.argument c.word) := by
  cases c with
  | render => exact ⟨by decide, rfl⟩
  | param => exact ⟨by decide, rfl⟩

/-! ### Before the command -/

theorem takesValue_of_mem_outer {s : Switch} (h : s ∈ outerSwitches) : s.takesValue = false := by
  cases s <;> first | rfl | exact absurd h (by decide)

theorem readLetters_outer {ss : List Switch} {s : Switch} {cs : List Char} {joined : Joined}
    (hs : s ∈ outerSwitches) (h : readLetters outerSwitches ss s cs = .ok joined) :
    ∃ ts, joined = .flags ts := by
  induction cs generalizing ss s with
  | nil =>
    rw [readLetters, takesValue_of_mem_outer hs] at h
    exact ⟨_, (Except.ok.inj h).symm⟩
  | cons c cs ih =>
    rw [readLetters, takesValue_of_mem_outer hs, if_neg (by simp)] at h
    split at h
    · cases h
    · next t ht => exact ih (switchNamed?_mem ht) h

theorem readJoined_outer {w : Written} {joined : Joined} (hw : w.switch ∈ outerSwitches)
    (h : readJoined outerSwitches w = .ok joined) : ∃ ts, joined = .flags ts := by
  unfold readJoined at h
  split at h
  · exact readLetters_outer hw h
  · rw [takesValue_of_mem_outer hw, if_neg (by simp)] at h
    split at h
    · cases h
    · exact readLetters_outer hw h

/-- The options before a command are flags: what follows them is left as it is. -/
theorem readOption_outer {g : Gathered} {w : Written} {rest : List Word} {r : Gathered × List Word}
    (hw : w.switch ∈ outerSwitches) (h : readOption outerSwitches g w rest = .ok r) :
    r.2 = rest ∧ ∀ more, readOption outerSwitches g w more = .ok (r.1, more) := by
  unfold readOption at h ⊢
  cases hj : readJoined outerSwitches w with
  | error fault =>
    rw [hj] at h
    cases h
  | ok joined =>
    obtain ⟨ts, rfl⟩ := readJoined_outer hw hj
    rw [hj] at h
    obtain ⟨g', hg, h⟩ := bind_eq_ok.mp h
    obtain rfl := Except.ok.inj h
    exact ⟨rfl, fun more => bind_eq_ok.mpr ⟨g', hg, rfl⟩⟩

/-- `Leads g before outer`: the words `before` are options of the program, and they lead from `g` to
`outer`. -/
inductive Leads : Gathered → List String → Gathered → Prop
  | nil (g : Gathered) : Leads g [] g
  | unknown {g outer : Gathered} {s : String} {before : List String} (proper : s ≠ "--")
      (word : classify outerSwitches s = .ok (.option s none)) (more : Leads (g.leave [s]) before outer) :
      Leads g (s :: before) outer
  | set {g g' outer : Gathered} {s : String} {w : Written} {before : List String} (proper : s ≠ "--")
      (word : classify outerSwitches s = .ok (.option s (some w)))
      (read : ∀ more, readOption outerSwitches g w more = .ok (g', more))
      (more : Leads g' before outer) : Leads g (s :: before) outer

/-- What a command comes to behind the options of the program. -/
def finish (c : Command) (outer : Gathered) : Except Refusal Gathered → Except Refusal Request
  | .error refusal => .error refusal
  | .ok inner =>
    match outer.extras ++ inner.extras with
    | [] => .ok (request c outer inner)
    | extras => refuse Command.program (some (.unrecognized extras))

theorem exists_leads_of_readOuter {args tail : List String} {fuel : Nat} {g : Gathered}
    {ws : List Word} {r : Request} (hws : words outerSwitches tail = .ok ws)
    (h : readOuter args fuel g ws = .ok r) : ∃ before c rest outer more,
      tail = before ++ Command.word c :: rest ∧ Leads g before outer ∧
        words outerSwitches rest = .ok more := by
  induction tail generalizing fuel g ws with
  | nil =>
    obtain rfl := Except.ok.inj hws
    cases fuel <;> cases h
  | cons s tail ih =>
    cases fuel with
    | zero => cases h
    | succ fuel =>
      rcases words_cons_eq_ok.mp hws with ⟨-, rfl⟩ | ⟨hs, word, more, hword, hmore, rfl⟩
      · cases tail <;> cases h
      · rcases classify_cases hword with rfl | rfl | ⟨w, rfl, hw⟩
        · rw [readOuter] at h
          split at h
          · cases h
          · next c hc =>
            have hcommand : c.word = s := by
              have hfound := List.find?_some hc
              simpa using hfound
            exact ⟨[], c, tail, g, more, by rw [hcommand]; rfl, .nil g, hmore⟩
        · obtain ⟨before, c, rest, outer, others, rfl, hleads, hrest⟩ := ih hmore h
          exact ⟨s :: before, c, rest, outer, others, rfl, .unknown hs hword hleads, hrest⟩
        · rw [readOuter] at h
          split at h
          · next stop _ => cases stop <;> cases h
          · next g' rest' hread =>
            obtain ⟨rfl, hflag⟩ := readOption_outer hw hread
            obtain ⟨before, c, rest, outer, others, rfl, hleads, hrest⟩ := ih hmore h
            exact ⟨s :: before, c, rest, outer, others, rfl, .set hs hword hflag hleads, hrest⟩

theorem exists_words_of_leads {g outer : Gathered} {before rest : List String} {more : List Word}
    (c : Command) (h : Leads g before outer) (hrest : words outerSwitches rest = .ok more) :
    ∃ ws, words outerSwitches (before ++ c.word :: rest) = .ok ws ∧ ∀ args fuel, ws.length < fuel →
      args.drop (args.length - rest.length) = rest →
        readOuter args fuel g ws = finish c outer (readCommand c rest) := by
  induction h with
  | nil g =>
    obtain ⟨hproper, hword⟩ := classify_command c
    have hcommand : Command.ofWord? c.word = some c := by cases c <;> rfl
    refine ⟨_, words_cons_eq_ok.mpr (.inr ⟨hproper, _, _, hword, hrest, rfl⟩),
      fun args fuel hfuel hargs => ?_⟩
    obtain ⟨fuel, rfl⟩ : ∃ k, fuel = k + 1 := ⟨fuel - 1, by omega⟩
    rw [readOuter, hcommand, length_words hrest]
    dsimp only
    rw [hargs]
    cases readCommand c rest with
    | error refusal => rfl
    | ok inner => rfl
  | unknown proper word _ ih =>
    obtain ⟨ws, hws, hread⟩ := ih
    refine ⟨_, words_cons_eq_ok.mpr (.inr ⟨proper, _, _, word, hws, rfl⟩),
      fun args fuel hfuel hargs => ?_⟩
    obtain ⟨fuel, rfl⟩ : ∃ k, fuel = k + 1 := ⟨fuel - 1, by omega⟩
    rw [List.length_cons] at hfuel
    exact hread args fuel (by omega) hargs
  | set proper word read _ ih =>
    obtain ⟨ws, hws, hread⟩ := ih
    refine ⟨_, words_cons_eq_ok.mpr (.inr ⟨proper, _, _, word, hws, rfl⟩),
      fun args fuel hfuel hargs => ?_⟩
    obtain ⟨fuel, rfl⟩ : ∃ k, fuel = k + 1 := ⟨fuel - 1, by omega⟩
    rw [List.length_cons] at hfuel
    rw [readOuter, read]
    exact hread args fuel (by omega) hargs

/-- A command line that is understood is made of options of the program, a command and what follows it. -/
theorem exists_leads_of_parse {args : List String} {r : Request} (h : Request.parse args = .ok r) :
    ∃ before c rest outer more, args = before ++ Command.word c :: rest ∧ Leads {} before outer ∧
      words outerSwitches rest = .ok more := by
  unfold Request.parse at h
  split at h
  · cases h
  · next ws hws => exact exists_leads_of_readOuter hws h

/-- Behind the options of the program and a command, the rest is read by the command alone. -/
theorem parse_of_leads {outer : Gathered} {before rest : List String} {more : List Word} (c : Command)
    (h : Leads {} before outer) (hrest : words outerSwitches rest = .ok more) :
    Request.parse (before ++ c.word :: rest) = finish c outer (readCommand c rest) := by
  obtain ⟨ws, hws, hread⟩ := exists_words_of_leads c h hrest
  rw [Request.parse, hws]
  refine hread _ _ (Nat.lt_succ_self _) ?_
  have hsplit : before ++ c.word :: rest = (before ++ [c.word]) ++ rest := by simp
  rw [hsplit, List.length_append, Nat.add_sub_cancel, List.drop_left]

/-- A command line is refused if the words behind the command are refused as words of the program. -/
theorem parse_of_leads_error {g outer : Gathered} {before rest : List String} {fault : UsageFault}
    (c : Command) (h : Leads g before outer) (hrest : words outerSwitches rest = .error fault) :
    Request.parse (before ++ c.word :: rest) = .error (.usage Command.program fault) := by
  have hwords : words outerSwitches (before ++ c.word :: rest) = .error fault := by
    obtain ⟨hproper, hword⟩ := classify_command c
    induction h with
    | nil g => exact words_cons_of_error hproper hword hrest
    | unknown proper word _ ih => exact words_cons_of_error proper word ih
    | set proper word _ _ ih => exact words_cons_of_error proper word ih
  rw [Request.parse, hwords]

end ApiPage.Cli
