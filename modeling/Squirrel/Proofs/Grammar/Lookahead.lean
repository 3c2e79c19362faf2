import Squirrel.Proofs.Grammar.Shape

/-!
# How far a derivation looks ahead

No condition of a production looks further than at the second word ahead, and one that does so has a word of its phrase to
come. So a derivation that stops in front of a word does not see what stands behind that word, and a phrase that ends with a
word of its own is the same phrase whatever follows it.
-/

namespace Squirrel

/-! ### Conditions -/

/-- The condition looks at the first word only. -/
def Word.LooksAtOne (condition : List Word → Prop) : Prop :=
  ∀ (first : Word) (rest other : List Word), condition (first :: rest) → condition (first :: other)

/-- The condition looks at the first two words only. -/
def Word.LooksAtTwo (condition : List Word → Prop) : Prop :=
  ∀ (first second : Word) (rest other : List Word), condition (first :: second :: rest) →
    condition (first :: second :: other)

/-- The item stands for a word. -/
def Item.takesWord : Item → Bool
  | word _ | wordIn _ => true
  | _ => false

/-- The conditions among some items look at the first word, or at two words where one of the items behind takes a word. -/
def Item.LookNear : List Item → Prop
  | [] => True
  | .check condition :: items =>
    (Word.LooksAtOne condition ∨ Word.LooksAtTwo condition ∧ items.any takesWord = true) ∧ LookNear items
  | _ :: items => LookNear items

theorem Production.looksNear {phrase : Phrase} {form : Form} {body : List Item} (hproduction : Production phrase form body) :
    Item.LookNear body := by
  cases hproduction
  all_goals simp only [Item.LookNear, and_true]
  case prefixed | negativeInteger | negativeFloat | keyedSlot =>
    exact .inr ⟨fun _ _ _ _ hcondition => hcondition, rfl⟩
  case terminatorPlace =>
    exact .inl fun _ _ _ hcondition => ⟨hcondition.1, .inr (hcondition.2.resolve_left (List.cons_ne_nil _ _))⟩
  all_goals exact .inl fun _ _ _ hcondition => hcondition

/-! ### Derivations -/

namespace Derives

variable {items : List Item} {words last front back rest : List Word} {trees : List Tree} {word : Word}

/-- Some words in front of the last ones are taken, and at least one if one of the items takes a word. -/
theorem exists_front (hderives : Derives items words last trees) :
    ∃ front, words = front ++ last ∧ (items.any Item.takesWord = true → front ≠ []) := by
  induction hderives with
  | nil => exact ⟨[], rfl, nofun⟩
  | @word _ _ first _ _ _ _ _ ih | @wordIn _ _ first _ _ _ _ _ ih =>
    obtain ⟨front, rfl, -⟩ := ih
    exact ⟨first :: front, rfl, fun _ => List.cons_ne_nil _ _⟩
  | check _ _ ih => exact ih
  | part _ _ _ _ ihbody ih =>
    obtain ⟨front, rfl, -⟩ := ihbody
    obtain ⟨others, rfl, htakes⟩ := ih
    exact ⟨front ++ others, (List.append_assoc ..).symm, fun htrue hnil => htakes htrue (List.append_eq_nil_iff.mp hnil).2⟩

/-- What stands behind the word that a derivation stops in front of, or behind a later one, does not matter. -/
theorem unseen (hderives : Derives items words last trees) (hnear : Item.LookNear items) (hwords : words = front ++ last)
    (hlast : last = back ++ word :: rest) (other : List Word) :
    Derives items (front ++ (back ++ word :: other)) (back ++ word :: other) trees := by
  induction hderives generalizing front back with
  | nil =>
    obtain rfl : front = [] := List.self_eq_append_left.mp hwords
    exact .nil
  | @word _ _ first _ _ _ hkind hitems ih | @wordIn _ _ first _ _ _ hkind hitems ih =>
    obtain ⟨others, rfl, -⟩ := hitems.exists_front
    rw [← List.cons_append] at hwords
    obtain rfl := List.append_cancel_right hwords
    first
      | exact .word hkind (ih hnear rfl hlast)
      | exact .wordIn hkind (ih hnear rfl hlast)
  | @check condition _ _ _ _ hcondition hitems ih =>
    obtain ⟨hlooks, hnear⟩ := hnear
    obtain ⟨others, hothers, htakes⟩ := hitems.exists_front
    refine .check ?_ (ih hnear hwords hlast)
    rw [hwords, hlast, ← List.append_assoc] at hcondition
    rw [← List.append_assoc]
    obtain hone | ⟨htwo, hword⟩ := hlooks
    · cases hfront : front ++ back with
      | nil => exact hone _ _ _ (hfront ▸ hcondition)
      | cons => exact hone _ _ _ (hfront ▸ hcondition)
    · obtain rfl : front = others := List.append_cancel_right (hwords.symm.trans hothers)
      obtain ⟨first, front, rfl⟩ := List.exists_cons_of_ne_nil (htakes hword)
      rw [List.cons_append, List.cons_append] at hcondition ⊢
      cases hfront : front ++ back with
      | nil => exact htwo _ _ _ _ (hfront ▸ hcondition)
      | cons => exact htwo _ _ _ _ (hfront ▸ hcondition)
  | part hproduction hbody hform hitems ihbody ih =>
    obtain ⟨others, rfl, -⟩ := hitems.exists_front
    obtain ⟨own, rfl, -⟩ := hbody.exists_front
    rw [← List.append_assoc] at hwords
    obtain rfl := List.append_cancel_right hwords
    have hown := ihbody hproduction.looksNear rfl (by rw [hlast, List.append_assoc])
    rw [List.append_assoc] at hown ⊢
    exact .part hproduction hown hform (ih hnear rfl hlast)

/-- Items with a word at the end are the same items whatever follows. -/
theorem before_any {kind : Kind} (hderives : Derives (items ++ [.word kind]) (front ++ last) last trees)
    (hnear : Item.LookNear items) (other : List Word) :
    Derives (items ++ [.word kind]) (front ++ other) other trees := by
  obtain ⟨middle, first, second, hitems, hword, rfl⟩ := hderives.split items
  cases hword with
  | @word _ _ closer _ _ _ hkind hnil =>
    cases hnil
    obtain ⟨own, hown, -⟩ := hitems.exists_front
    rw [List.append_cons] at hown
    obtain rfl := List.append_cancel_right hown
    have hlast : closer :: last = [] ++ closer :: last := rfl
    have hbefore := hitems.unseen hnear (List.append_cons ..).symm hlast other
    rw [← List.append_cons]
    exact hbefore.append (.word hkind .nil)

end Derives

end Squirrel
