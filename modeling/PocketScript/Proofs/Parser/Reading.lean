import PocketScript.Program.Reading

/-!
# What a reading gives

A reading carries remarks beside its form, and nothing in the grammar depends
on them. `Gives` forgets them: it says which form was read and what is left,
and each way of building a reading has one law about it. Soundness of the
parser is read off these laws from left to right.

The other direction needs the counter. A reader gives a form once its counter
is large enough and goes on giving it from there, which is `Settles`. Two
readers in a row settle if each of them does, whatever their bounds are, so no
proof about the grammar has to compute a bound. `Within` is the order in which
a counter improves a reading: a starved reading can become anything, and
everything else stays.

## Main definitions

* `Reading.Gives`: A form was read and these tokens are left.
* `Reading.Settles`: The same for every large enough counter.
* `Reading.Within`: One reading is another or is starved.

## Theorems

* `Reading.andThen_gives`, `Reading.map_gives`, `Reading.noting_gives`: What
  readings in a row give.
* `Reading.expect_gives`: A token that is expected is the next one.
* `Reading.settles_andThen`: Readers in a row settle.
* `Reading.within_andThen`: Readings in a row improve with their parts.
* `Reading.andThen_ne_starved`: Readings in a row are fed if their parts are.
-/

namespace PocketScript

namespace Reading

variable {α β : Type}

/-- A form was read, and these tokens are left. -/
def Gives (r : Reading α) (a : α) (rest : List Token) : Prop :=
  ∃ remarks, r = done a rest remarks

@[simp] theorem done_gives (a b : α) (ts us : List Token) (remarks : List GrammarFault) :
    (done a ts remarks).Gives b us ↔ a = b ∧ ts = us := by
  simp [Gives]

@[simp] theorem failed_gives (e : GrammarFault) (remarks : List GrammarFault) (a : α)
    (ts : List Token) : ¬ (failed e remarks).Gives a ts := by
  simp [Gives]

@[simp] theorem starved_gives (a : α) (ts : List Token) : ¬ (starved : Reading α).Gives a ts := by
  simp [Gives]

@[simp] theorem noting_gives (remarks : List GrammarFault) (r : Reading α) (a : α)
    (ts : List Token) : (noting remarks r).Gives a ts ↔ r.Gives a ts := by
  cases r <;> simp [noting]

theorem andThen_gives (r : Reading α) (f : α → List Token → Reading β) (b : β)
    (us : List Token) :
    (r.andThen f).Gives b us ↔ ∃ a ts, r.Gives a ts ∧ (f a ts).Gives b us := by
  cases r with
  | done c vs remarks =>
      simp only [andThen, noting_gives, done_gives]
      constructor
      · intro h
        exact ⟨c, vs, ⟨rfl, rfl⟩, h⟩
      · rintro ⟨a, ts, ⟨rfl, rfl⟩, h⟩
        exact h
  | failed e remarks => simp [andThen]
  | starved => simp [andThen]

theorem map_gives (f : α → β) (r : Reading α) (b : β) (ts : List Token) :
    (r.map f).Gives b ts ↔ ∃ a, r.Gives a ts ∧ f a = b := by
  constructor
  · intro h
    rcases (andThen_gives _ _ _ _).mp h with ⟨a, us, ha, hb⟩
    rcases (done_gives _ _ _ _ _).mp hb with ⟨rfl, rfl⟩
    exact ⟨a, ha, rfl⟩
  · rintro ⟨a, ha, rfl⟩
    exact (andThen_gives _ _ _ _).mpr ⟨a, ts, ha, (done_gives _ _ _ _ _).mpr ⟨rfl, rfl⟩⟩

theorem expect_gives (stop : Token) (k : Kind) (detail : Text) (ts : List Token) (t : Token)
    (rest : List Token) :
    (expect stop k detail ts).Gives t rest ↔ ts = t :: rest ∧ t.kind = k := by
  cases ts with
  | nil => simp [expect]
  | cons u us =>
      rw [expect]
      by_cases hk : u.kind = k
      · rw [if_pos hk, done_gives, List.cons.injEq]
        exact ⟨fun ⟨h1, h2⟩ => ⟨⟨h1, h2⟩, h1 ▸ hk⟩, fun ⟨h, _⟩ => h⟩
      · rw [if_neg hk]
        refine ⟨fun h => absurd h (failed_gives _ _ _ _), ?_⟩
        rintro ⟨h, ht⟩
        rw [(List.cons.inj h).1] at hk
        exact absurd ht hk

/-- Every reading with a large enough counter gives the form. -/
def Settles (f : Nat → Reading α) (a : α) (rest : List Token) : Prop :=
  ∃ bound, ∀ n, bound ≤ n → (f n).Gives a rest

theorem settles_const {r : Reading α} {a : α} {rest : List Token} (h : r.Gives a rest) :
    Settles (fun _ => r) a rest := ⟨0, fun _ _ => h⟩

/-- A reader that spends one of its counter settles if what it spends it on
    does. -/
theorem settles_succ {f : Nat → Reading α} {a : α} {rest : List Token}
    (h : Settles (fun n => f (n + 1)) a rest) : Settles f a rest := by
  rcases h with ⟨bound, hb⟩
  refine ⟨bound + 1, fun n hn => ?_⟩
  cases n with
  | zero => omega
  | succ k => exact hb k (by omega)

theorem settles_andThen {f : Nat → Reading α} {g : Nat → α → List Token → Reading β} {a : α}
    {b : β} {ts us : List Token} (hf : Settles f a ts) (hg : Settles (fun n => g n a ts) b us) :
    Settles (fun n => (f n).andThen (g n)) b us := by
  rcases hf with ⟨m, hm⟩
  rcases hg with ⟨k, hk⟩
  refine ⟨max m k, fun n hn => ?_⟩
  exact (andThen_gives _ _ _ _).mpr ⟨a, ts, hm n (by omega), hk n (by omega)⟩

theorem settles_map {f : Nat → Reading α} {g : α → β} {a : α} {ts : List Token}
    (hf : Settles f a ts) : Settles (fun n => (f n).map g) (g a) ts := by
  rcases hf with ⟨m, hm⟩
  exact ⟨m, fun n hn => (map_gives _ _ _ _).mpr ⟨a, hm n hn, rfl⟩⟩

theorem settles_noting {f : Nat → Reading α} {remarks : List GrammarFault} {a : α}
    {ts : List Token} (hf : Settles f a ts) : Settles (fun n => noting remarks (f n)) a ts := by
  rcases hf with ⟨m, hm⟩
  exact ⟨m, fun n hn => (noting_gives _ _ _ _).mpr (hm n hn)⟩

/-- One reading is another, unless it is starved. -/
def Within (r r' : Reading α) : Prop := r = starved ∨ r = r'

theorem within_refl (r : Reading α) : Within r r := Or.inr rfl

theorem within_trans {r r' r'' : Reading α} (h : Within r r') (h' : Within r' r'') :
    Within r r'' := by
  rcases h with rfl | rfl
  · exact Or.inl rfl
  · exact h'

theorem within_noting (remarks : List GrammarFault) {r r' : Reading α} (h : Within r r') :
    Within (noting remarks r) (noting remarks r') := by
  rcases h with rfl | rfl
  · exact Or.inl rfl
  · exact within_refl _

theorem within_andThen {r r' : Reading α} {f f' : α → List Token → Reading β}
    (h : Within r r') (hf : ∀ a ts, Within (f a ts) (f' a ts)) :
    Within (r.andThen f) (r'.andThen f') := by
  rcases h with rfl | rfl
  · exact Or.inl rfl
  · cases r with
    | done a ts remarks => exact within_noting remarks (hf a ts)
    | failed e remarks => exact within_refl _
    | starved => exact within_refl _

theorem within_map {r r' : Reading α} (f : α → β) (h : Within r r') :
    Within (r.map f) (r'.map f) :=
  within_andThen h fun _ _ => within_refl _

theorem noting_ne_starved {remarks : List GrammarFault} {r : Reading α} (h : r ≠ starved) :
    noting remarks r ≠ starved := by
  cases r with
  | done a ts more => simp [noting]
  | failed e more => simp [noting]
  | starved => exact absurd rfl h

theorem andThen_ne_starved {r : Reading α} {f : α → List Token → Reading β} (h : r ≠ starved)
    (hf : ∀ a ts, r.Gives a ts → f a ts ≠ starved) : r.andThen f ≠ starved := by
  cases r with
  | done a ts remarks => exact noting_ne_starved (hf a ts ⟨remarks, rfl⟩)
  | failed e remarks => simp [andThen]
  | starved => exact absurd rfl h

theorem map_ne_starved {r : Reading α} {f : α → β} (h : r ≠ starved) : r.map f ≠ starved :=
  andThen_ne_starved h fun _ _ _ => by simp

theorem expect_ne_starved (stop : Token) (k : Kind) (detail : Text) (ts : List Token) :
    expect stop k detail ts ≠ starved := by
  cases ts with
  | nil => simp [expect]
  | cons t us => by_cases hk : t.kind = k <;> simp [expect, hk]

end Reading

end PocketScript
