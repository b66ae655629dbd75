namespace Intcode

inductive Level where
  | debug
  | info
  deriving DecidableEq, Repr

def Level.name : Level → String
  | debug => "DEBUG"
  | info => "INFO"

@[ext]
structure Record where
  level : Level
  text : String
  deriving DecidableEq, Repr

namespace Record

def debug (text : String) : Record :=
  ⟨.debug, text⟩

def info (text : String) : Record :=
  ⟨.info, text⟩

end Record

abbrev Log := Array Record

@[ext]
structure Logged (ε α : Type) where
  log : Log
  result : Except ε α

namespace Logged

variable {ε α β : Type}

def note (r : Record) : Logged ε Unit :=
  ⟨#[r], .ok ()⟩

def lift (x : Except ε α) : Logged ε α :=
  ⟨#[], x⟩

instance : Monad (Logged ε) where
  pure a := ⟨#[], .ok a⟩
  bind x f :=
    match x.result with
    | .ok a =>
      let y := f a
      ⟨x.log ++ y.log, y.result⟩
    | .error e => ⟨x.log, .error e⟩

instance : MonadExceptOf ε (Logged ε) where
  throw e := ⟨#[], .error e⟩
  tryCatch x handle :=
    match x.result with
    | .ok _ => x
    | .error e =>
      let y := handle e
      ⟨x.log ++ y.log, y.result⟩

def mapError {ε' : Type} (f : ε → ε') (x : Logged ε α) : Logged ε' α :=
  ⟨x.log, x.result.mapError f⟩

@[simp] theorem result_note (r : Record) : (note r : Logged ε Unit).result = .ok () :=
  rfl

@[simp] theorem result_lift (x : Except ε α) : (lift x).result = x :=
  rfl

@[simp] theorem result_pure (a : α) : (pure a : Logged ε α).result = .ok a :=
  rfl

@[simp] theorem result_mapError {ε' : Type} (f : ε → ε') (x : Logged ε α) :
    (x.mapError f).result = x.result.mapError f :=
  rfl

@[simp] theorem result_bind (x : Logged ε α) (f : α → Logged ε β) :
    (x >>= f).result = x.result >>= fun a => (f a).result := by
  cases x with
  | mk log result => cases result <;> rfl

theorem id_map_eq (x : Logged ε α) : id <$> x = x := by
  rcases x with ⟨_, _ | _⟩ <;> simp [Functor.map]

theorem pure_bind_eq (a : α) (f : α → Logged ε β) : (pure a >>= f) = f a := by
  simp [bind, pure]

theorem bind_assoc_eq {γ : Type} (x : Logged ε α) (f : α → Logged ε β) (g : β → Logged ε γ) :
    (x >>= f >>= g) = x >>= fun a => f a >>= g := by
  rcases x with ⟨_, _ | a⟩
  · rfl
  · simp only [bind]
    cases (f a).result <;> simp [Array.append_assoc]

instance : LawfulMonad (Logged ε) :=
  LawfulMonad.mk' _ id_map_eq pure_bind_eq bind_assoc_eq

theorem result_foldlM (f : β → α → Logged ε β) (b : β) (xs : List α) :
    (xs.foldlM f b).result = xs.foldlM (fun b x => (f b x).result) b := by
  induction xs generalizing b with
  | nil => rfl
  | cons x xs ih => simp [List.foldlM_cons, ih]

theorem result_mapM (f : α → Logged ε β) (xs : List α) :
    (xs.mapM f).result = xs.mapM fun x => (f x).result := by
  induction xs with
  | nil => rfl
  | cons x xs ih =>
    simp only [List.mapM_cons, result_bind, result_pure, ih]
    rfl

end Logged
end Intcode
