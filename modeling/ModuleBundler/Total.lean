/-!
# ModuleBundler — totals

The total of a quantity over a list, such as the weight of a work list.
-/

namespace ModuleBundler

variable {α β : Type}

/-- The sum of a quantity over a list. -/
def total (f : α → Nat) : List α → Nat
  | [] => 0
  | a :: rest => f a + total f rest

@[simp] theorem total_nil (f : α → Nat) : total f [] = 0 := rfl

@[simp] theorem total_cons (f : α → Nat) (a : α) (rest : List α) :
    total f (a :: rest) = f a + total f rest := rfl

@[simp] theorem total_append (f : α → Nat) (l m : List α) :
    total f (l ++ m) = total f l + total f m := by
  induction l with
  | nil => simp
  | cons a l ih => simp [ih, Nat.add_assoc]

@[simp] theorem total_map (f : β → Nat) (g : α → β) (l : List α) :
    total f (l.map g) = total (fun a => f (g a)) l := by
  induction l with
  | nil => rfl
  | cons a l ih => simp [ih]

theorem total_attach (f : α → Nat) (l : List α) :
    total (fun a : { a // a ∈ l } => f a.1) l.attach = total f l := by
  rw [← total_map f, List.attach_map_subtype_val]

theorem total_mul (n : Nat) (f : α → Nat) (l : List α) :
    total (fun a => n * f a) l = n * total f l := by
  induction l with
  | nil => rfl
  | cons a l ih => simp [ih, Nat.mul_add]

end ModuleBundler
