import ApiPage.Proofs.Ty.Spelling
import ApiPage.Proofs.Ty.Unions
import ApiPage.Ty.Expr

/-!
# The grammar of type text and what it denotes

    union    := basic ('|' basic)*
    basic    := NEVER | NAME | 'tuple' '[' inTuple ']' | NAME '[' args ']'
    inTuple  := '()' | union ',' '...' | args
    args     := union (',' union)*

`Derives n ts as` says that the tokens `ts` derive from the nonterminal `n` and that the derivation
denotes `as`: the types of the arguments for `args`, those of the alternatives for `alts`, and one
type for every other nonterminal. A union denotes the variants of its alternatives, each at its first
occurrence.
-/

namespace ApiPage.Ty

/-- The nonterminals; `alts` are the alternatives of a union before they are united. -/
inductive Nonterminal
  | basic
  | alts
  | union
  | args
  | inTuple
  deriving DecidableEq, Repr

/-- What a head other than `tuple` with arguments in brackets denotes. -/
inductive Denotes : Str → List Ty → Variant → Prop
  | any {head : Str} {args : List Ty} (h : isAnyWord head = true) : Denotes head args .any
  | list {item : Ty} : Denotes "list" [item] (.list item)
  | dict {key value : Ty} : Denotes "dict" [key, value] (.dict key value)
  | written {head : Str} {args : List Ty} (ha : isAnyWord head = false)
      (hl : head = "list" → args.length ≠ 1) (hd : head = "dict" → args.length ≠ 2) :
      Denotes head args (.name (head ++ "[" ++ Text.joinWith ", " (args.map Ty.text) ++ "]"))

/-- The tokens of a phrase and the types that it denotes. -/
inductive Derives : Nonterminal → List Token → List Ty → Prop
  | never {s : Str} (h : isNeverWord s = true) : Derives .basic [.word s] [Ty.never]
  | any {s : Str} (h : isAnyWord s = true) : Derives .basic [.word s] [Ty.any]
  | name {s : Str} (hn : isNeverWord s = false) (ha : isAnyWord s = false) :
      Derives .basic [.word s] [Ty.named s]
  | tuple {ts : List Token} {t : Ty} (h : Derives .inTuple ts [t]) :
      Derives .basic (.word "tuple" :: .opening :: (ts ++ [.closing])) [t]
  | generic {head : Str} {ts : List Token} {as : List Ty} {v : Variant}
      (hn : isNeverWord head = false) (ht : head ≠ "tuple") (h : Derives .args ts as)
      (hv : Denotes head as v) :
      Derives .basic (.word head :: .opening :: (ts ++ [.closing])) [[v]]
  | emptyTuple : Derives .inTuple [.unit] [[.tuple [] false]]
  | manyTuple {ts : List Token} {t : Ty} (h : Derives .union ts [t]) :
      Derives .inTuple (ts ++ [.comma, .ellipsis]) [Ty.tupleOf t]
  | fixedTuple {ts : List Token} {as : List Ty} (h : Derives .args ts as) :
      Derives .inTuple ts [[.tuple as false]]
  | lastArg {ts : List Token} {t : Ty} (h : Derives .union ts [t]) : Derives .args ts [t]
  | arg {ts us : List Token} {t : Ty} {as : List Ty} (h : Derives .union ts [t])
      (hs : Derives .args us as) : Derives .args (ts ++ .comma :: us) (t :: as)
  | union {ts : List Token} {as : List Ty} {t : Ty} (h : Derives .alts ts as)
      (ht : t.Collects as.flatten) : Derives .union ts [t]
  | lastAlt {ts : List Token} {t : Ty} (h : Derives .basic ts [t]) : Derives .alts ts [t]
  | alt {ts us : List Token} {t : Ty} {as : List Ty} (h : Derives .basic ts [t])
      (hs : Derives .alts us as) : Derives .alts (ts ++ .bar :: us) (t :: as)

/-- The text `s` spells a phrase that denotes `as`. -/
def Spelled (n : Nonterminal) (s : Str) (as : List Ty) : Prop :=
  ∃ ts, Spells s.toList ts ∧ Derives n ts as

/-! ### What a head denotes -/

theorem genericVariant_of_denotes {head : Str} {args : List Ty} {v : Variant}
    (h : Denotes head args v) (ht : head ≠ "tuple") : genericVariant head args = v := by
  cases h with
  | any h => simp [genericVariant, ht, h]
  | list => rfl
  | dict => rfl
  | written ha hl hd =>
    unfold genericVariant
    rw [if_neg ht, ha, if_neg Bool.false_ne_true]
    split
    · rw [if_neg fun h => hl h rfl]
      rfl
    · rw [if_neg fun h => hd h rfl]
      rfl
    · rfl

theorem denotes_genericVariant {head : Str} (args : List Ty) (ht : head ≠ "tuple") :
    Denotes head args (genericVariant head args) := by
  unfold genericVariant
  rw [if_neg ht]
  split
  · next ha => exact .any ha
  · next ha =>
    have ha : isAnyWord head = false := by simpa using ha
    split
    · split
      · next h => exact h ▸ .list
      · next h => exact .written ha (fun hl => absurd hl h) (by simp)
    · split
      · next h => exact h ▸ .dict
      · next h => exact .written ha (by simp) (fun hd => absurd hd h)
    · next h1 h2 =>
      refine .written ha (fun _ hl => ?_) (fun _ hd => ?_)
      · obtain ⟨a, rfl⟩ := List.length_eq_one_iff.mp hl
        exact h1 a rfl
      · obtain ⟨a, b, rfl⟩ := List.length_eq_two.mp hd
        exact h2 a b rfl

/-! ### The tokens of a phrase -/

/-- Every phrase but the inside of a tuple begins with a word. -/
theorem Derives.head_word {n : Nonterminal} {ts : List Token} {as : List Ty} (h : Derives n ts as) :
    n ≠ .inTuple → ∃ s us, ts = .word s :: us := by
  induction h with
  | never | any | name | tuple | generic => exact fun _ => ⟨_, _, rfl⟩
  | emptyTuple | manyTuple | fixedTuple => exact fun hn => absurd rfl hn
  | lastArg _ ih | union _ _ ih | lastAlt _ ih => exact fun _ => ih (by simp)
  | arg _ _ ih | alt _ _ ih =>
    obtain ⟨s, us, rfl⟩ := ih (by simp)
    exact fun _ => ⟨s, _, rfl⟩

theorem apart_append_cons {ts us : List Token} {t : Token} (hts : Apart ts) (hus : Apart us)
    (hl : ∀ u, mayTouch u t = true) (hr : ∀ u, mayTouch t u = true) : Apart (ts ++ t :: us) :=
  List.isChain_append.mpr ⟨hts, List.isChain_cons.mpr ⟨fun u _ => hr u, hus⟩, fun u _ v hv => by
    obtain rfl : t = v := by simpa using hv
    exact hl u⟩

/-- In a phrase no word is followed by a word or an ellipsis. -/
theorem Derives.apart {n : Nonterminal} {ts : List Token} {as : List Ty} (h : Derives n ts as) :
    Apart ts := by
  have hbracket : ∀ (s : Str) {us : List Token}, Apart us →
      Apart (.word s :: .opening :: (us ++ [.closing])) := fun s us hus =>
    List.isChain_cons.mpr ⟨by simp [mayTouch], List.isChain_cons.mpr ⟨fun u _ => rfl,
      apart_append_cons hus List.isChain_nil (fun u => by cases u <;> rfl) fun u => rfl⟩⟩
  induction h with
  | never | any | name | emptyTuple => exact List.isChain_singleton _
  | tuple _ ih | generic _ _ _ _ ih => exact hbracket _ ih
  | manyTuple _ ih =>
    exact apart_append_cons ih (List.isChain_singleton _) (fun u => by cases u <;> rfl) fun u => rfl
  | fixedTuple _ ih | lastArg _ ih | union _ _ ih | lastAlt _ ih => exact ih
  | arg _ _ ih₁ ih₂ | alt _ _ ih₁ ih₂ =>
    exact apart_append_cons ih₁ ih₂ (fun u => by cases u <;> rfl) fun u => rfl

end ApiPage.Ty
