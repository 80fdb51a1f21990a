import ApiPage.Proofs.Cli.CommandLine

/-!
# Reading the words of a command

`gather` takes the words of a command in steps: an option with its value, or words that fill places. Every
step uses up words, so it does not matter how many steps are granted beyond the number of words
(`gather_fuel`). An option that is set before any word is read stays below all that the words set and changes
nothing else of what is read (`gather_above`), and so does one that stands right behind the command
(`readCommand_cons`).
-/

namespace ApiPage.Cli

/-! ### One step of reading the words of a command -/

variable {switches : List Switch} {places : List String}

/-- What words that are no options come to at once: they fill places, or they fit nowhere. -/
def takeWords (places : List String) (g : Gathered) (ws : List Word) : Gathered × List Word :=
  match takePlaces (places.length - g.values.length) ws with
  | ([], _) => (g.leave ((ws.takeWhile (!·.isOption)).map (·.text)), ws.dropWhile (!·.isOption))
  | (values, rest) => (g.fill values, rest)

theorem gather_cons_of_not_isOption {word : Word} (h : word.isOption = false) (fuel : Nat)
    (g : Gathered) (rest : List Word) : gather switches places (fuel + 1) g (word :: rest) =
      gather switches places fuel (takeWords places g (word :: rest)).1
        (takeWords places g (word :: rest)).2 := by
  unfold takeWords
  cases word with
  | option => cases h
  | argument s =>
    rw [gather]
    · rcases takePlaces (places.length - g.values.length) (.argument s :: rest) with ⟨_ | _, _⟩
      · rfl
      · rfl
    · simp
    · simp
  | terminator =>
    rw [gather]
    · rcases takePlaces (places.length - g.values.length) (.terminator :: rest) with ⟨_ | _, _⟩
      · rfl
      · rfl
    · simp
    · simp

theorem gather_cons_option (fuel : Nat) (g : Gathered) (s : String) (w : Written) (rest : List Word) :
    gather switches places (fuel + 1) g (.option s (some w) :: rest) =
      (readOption switches g w rest).bind fun r => gather switches places fuel r.1 r.2 := by
  rw [gather]
  rfl

/-! ### Words are used up -/

theorem length_dropTerminators_le (ws : List Word) : (dropTerminators ws).length ≤ ws.length :=
  (List.dropWhile_sublist _).length_le

theorem length_takePlaces_le (n : Nat) (ws : List Word) : (takePlaces n ws).2.length ≤ ws.length := by
  induction n generalizing ws with
  | zero => exact Nat.le_refl _
  | succ n ih =>
    have hdrop := length_dropTerminators_le ws
    rw [takePlaces]
    split
    · next s rest hws =>
      have hrest := length_dropTerminators_le rest
      have hmore := ih (dropTerminators rest)
      rw [hws, List.length_cons] at hdrop
      dsimp only
      omega
    · exact Nat.le_refl _

theorem length_takePlaces_lt {n : Nat} {ws : List Word} (h : (takePlaces n ws).1 ≠ []) :
    (takePlaces n ws).2.length < ws.length := by
  cases n with
  | zero => exact absurd rfl h
  | succ n =>
    have hdrop := length_dropTerminators_le ws
    rw [takePlaces] at h ⊢
    split at h
    · next s rest hws =>
      have hrest := length_dropTerminators_le rest
      have hmore := length_takePlaces_le n (dropTerminators rest)
      rw [hws, List.length_cons] at hdrop
      dsimp only
      omega
    · exact absurd rfl h

theorem length_takeWords_lt {word : Word} (h : word.isOption = false) (g : Gathered)
    (rest : List Word) : (takeWords places g (word :: rest)).2.length < (word :: rest).length := by
  have htaken := @length_takePlaces_lt (places.length - g.values.length) (word :: rest)
  unfold takeWords
  revert htaken
  rcases takePlaces (places.length - g.values.length) (word :: rest) with ⟨_ | _, _⟩
  · intro _
    have hdrop : (rest.dropWhile (!·.isOption)).length ≤ rest.length :=
      (List.dropWhile_sublist _).length_le
    simp only [List.dropWhile_cons, h, Bool.not_false, if_true, List.length_cons]
    omega
  · intro htaken
    exact htaken (by simp)

theorem length_readOption_le {g : Gathered} {w : Written} {rest : List Word}
    {r : Gathered × List Word} (h : readOption switches g w rest = .ok r) :
    r.2.length ≤ rest.length := by
  unfold readOption at h
  split at h
  · cases h
  · obtain ⟨_, -, h⟩ := bind_eq_ok.mp h
    obtain rfl := Except.ok.inj h
    exact Nat.le_refl _
  · obtain ⟨_, -, h⟩ := bind_eq_ok.mp h
    obtain rfl := Except.ok.inj h
    exact Nat.le_refl _
  · split at h
    · obtain ⟨_, -, h⟩ := bind_eq_ok.mp h
      obtain rfl := Except.ok.inj h
      exact Nat.le_succ _
    · cases h

/-- Words are read in the same way, however many steps are granted beyond their number. -/
theorem gather_fuel {n m : Nat} {g : Gathered} {ws : List Word} (hn : ws.length < n)
    (hm : ws.length < m) : gather switches places n g ws = gather switches places m g ws := by
  induction n generalizing m g ws with
  | zero => omega
  | succ n ih =>
    obtain ⟨m, rfl⟩ : ∃ k, m = k + 1 := ⟨m - 1, by omega⟩
    rcases ws with _ | ⟨word, rest⟩
    · rfl
    · by_cases hword : word.isOption = true
      · cases word with
        | argument => cases hword
        | terminator => cases hword
        | option s written =>
          rw [List.length_cons] at hn hm
          cases written with
          | none => exact ih (by omega) (by omega)
          | some w =>
            rw [gather_cons_option, gather_cons_option]
            cases hread : readOption switches g w rest with
            | error stop => rfl
            | ok r =>
              have hle := length_readOption_le hread
              exact ih (by omega) (by omega)
      · have hword := Bool.eq_false_iff.mpr hword
        have hlt : (takeWords places g (word :: rest)).2.length < (word :: rest).length :=
          length_takeWords_lt hword g rest
        rw [gather_cons_of_not_isOption hword, gather_cons_of_not_isOption hword]
        exact ih (by omega) (by omega)

/-! ### Values that are set before all others -/

/-- What has been read, with options set before all that were read. -/
def Gathered.above (g : Gathered) (base : List (Switch × Operand String)) : Gathered :=
  { g with settings := g.settings ++ base }

/-- An option set before all others is set. -/
theorem Gathered.has_above (g : Gathered) (s t : Switch) (v : Operand String) :
    (g.above [(s, v)]).has t = (g.has t || decide (s = t)) := by
  simp only [has, above, List.any_append, List.any_cons, List.any_nil, Bool.or_false]

/-- An option set before all others gives no other option a value. -/
theorem Gathered.value?_above (g : Gathered) {s t : Switch} (h : t ≠ s) (v : Operand String) :
    (g.above [(s, v)]).value? t = g.value? t := by
  have hbeq : (t == s) = false := beq_false_of_ne h
  simp only [value?, above, List.lookup_append, List.lookup_cons, hbeq, List.lookup_nil, Option.or_none]

theorem Gathered.text?_above (g : Gathered) {s t : Switch} (h : t ≠ s) (v : Operand String) :
    (g.above [(s, v)]).text? t = g.text? t := by
  rw [text?, value?_above g h, text?]

variable (base : List (Switch × Operand String))

theorem setFlags_above (g : Gathered) (ss : List Switch) :
    setFlags (g.above base) ss = (setFlags g ss).map (·.above base) := by
  induction ss generalizing g with
  | nil => rfl
  | cons s ss ih =>
    rw [setFlags, setFlags, setFlag, setFlag]
    by_cases hs : s = .help
    · rw [if_pos hs, if_pos hs]
      rfl
    · rw [if_neg hs, if_neg hs]
      exact ih (g.set s .blank)

theorem readOption_above (g : Gathered) (w : Written) (rest : List Word) :
    readOption switches (g.above base) w rest =
      (readOption switches g w rest).map fun r => (r.1.above base, r.2) := by
  unfold readOption
  cases readJoined switches w with
  | error fault => rfl
  | ok joined =>
    cases joined with
    | flags ss =>
      simp only [setFlags_above]
      cases setFlags g ss <;> rfl
    | valued ss s value =>
      simp only [setFlags_above]
      cases setFlags g ss <;> rfl
    | needsValue ss s =>
      rcases rest with _ | ⟨word, rest⟩
      · rfl
      · cases word with
        | argument value =>
          simp only [setFlags_above]
          cases setFlags g ss <;> rfl
        | terminator => rfl
        | option => rfl

theorem takeWords_above (g : Gathered) (ws : List Word) : takeWords places (g.above base) ws =
    ((takeWords places g ws).1.above base, (takeWords places g ws).2) := by
  have hvalues : (g.above base).values = g.values := rfl
  rw [takeWords, takeWords, hvalues]
  rcases takePlaces (places.length - g.values.length) ws with ⟨_ | _, _⟩
  · rfl
  · rfl

/-- Options set before all others change nothing of what is read. -/
theorem gather_above (fuel : Nat) (g : Gathered) (ws : List Word) :
    gather switches places fuel (g.above base) ws =
      (gather switches places fuel g ws).map (·.above base) := by
  induction fuel generalizing g ws with
  | zero => rfl
  | succ fuel ih =>
    rcases ws with _ | ⟨word, rest⟩
    · rfl
    · by_cases hword : word.isOption = true
      · cases word with
        | argument => cases hword
        | terminator => cases hword
        | option s written =>
          cases written with
          | none => exact ih (g.leave [s]) rest
          | some w =>
            rw [gather_cons_option, gather_cons_option, readOption_above]
            cases readOption switches g w rest with
            | error stop => rfl
            | ok r => exact ih r.1 r.2
      · have hword := Bool.eq_false_iff.mpr hword
        rw [gather_cons_of_not_isOption hword, gather_cons_of_not_isOption hword, takeWords_above]
        exact ih _ _

/-- A command reads the words behind an option as it does without it. -/
theorem readCommand_cons {c : Command} {s : String} {w : Written} (proper : s ≠ "--")
    (hword : classify c.switches s = .ok (.option s (some w)))
    (hread : ∀ ws, readOption c.switches {} w ws = .ok (Gathered.above {} base, ws))
    (rest : List String) :
    readCommand c (s :: rest) = (readCommand c rest).map (·.above base) := by
  rw [readCommand, readCommand, words, if_neg proper, hword]
  cases words c.switches rest with
  | error fault => rfl
  | ok ws =>
    have hgather : gather c.switches c.places (2 * (ws.length + 1) + 1) {} (.option s (some w) :: ws) =
        (gather c.switches c.places (2 * ws.length + 1) {} ws).map (·.above base) := by
      have hfuel : gather c.switches c.places (2 * (ws.length + 1)) {} ws =
          gather c.switches c.places (2 * ws.length + 1) {} ws :=
        gather_fuel (by omega) (by omega)
      rw [gather_cons_option, hread, ← hfuel]
      exact gather_above base _ {} ws
    simp only [bind, Except.bind, List.length_cons]
    rw [hgather]
    cases gather c.switches c.places (2 * ws.length + 1) {} ws with
    | error stop => cases stop <;> rfl
    | ok g =>
      have hvalues : (g.above base).values = g.values := rfl
      simp only [Except.map, hvalues]
      split <;> rfl

end ApiPage.Cli
