import HashedImports.Journal

/-!
Work on a disk. It reports on its way, and it may end in a fault; what was written before stays
written.
-/

namespace HashedImports

structure Outcome (α : Type) where
  disk : Disk
  journal : List Event
  result : Except Fault α

def Action (α : Type) := Disk → Outcome α

namespace Action

variable {α β : Type}

def done (a : α) : Action α := fun d =>
  ⟨d, [], .ok a⟩

def fail (f : Fault) : Action α := fun d =>
  ⟨d, [], .error f⟩

def andThen (t : Action α) (next : α → Action β) : Action β := fun d =>
  let o := t d
  match o.result with
  | .error f => ⟨o.disk, o.journal, .error f⟩
  | .ok a =>
    let o' := next a o.disk
    ⟨o'.disk, o.journal ++ o'.journal, o'.result⟩

instance : Monad Action where
  pure := done
  bind := andThen

def report (events : List Event) : Action Unit := fun d =>
  ⟨d, events, .ok ()⟩

def read (f : Disk → Except Fault α) : Action α := fun d =>
  ⟨d, [], f d⟩

def ofExcept (r : Except Fault α) : Action α := fun d =>
  ⟨d, [], r⟩

def attempt (t : Action α) : Action (Except Fault α) := fun d =>
  let o := t d
  ⟨o.disk, o.journal, .ok o.result⟩

@[simp] theorem pure_apply (a : α) (d : Disk) : (pure a : Action α) d = ⟨d, [], .ok a⟩ := rfl

@[simp] theorem fail_apply (f : Fault) (d : Disk) : (fail f : Action α) d = ⟨d, [], .error f⟩ := rfl

@[simp] theorem report_apply (es : List Event) (d : Disk) : report es d = ⟨d, es, .ok ()⟩ := rfl

@[simp] theorem read_apply (f : Disk → Except Fault α) (d : Disk) : read f d = ⟨d, [], f d⟩ := rfl

@[simp] theorem ofExcept_apply (r : Except Fault α) (d : Disk) : ofExcept r d = ⟨d, [], r⟩ := rfl

theorem bind_apply_of_ok {t : Action α} {next : α → Action β} {d : Disk} {a : α}
    (h : (t d).result = .ok a) :
    (t >>= next) d = ⟨(next a (t d).disk).disk, (t d).journal ++ (next a (t d).disk).journal,
      (next a (t d).disk).result⟩ := by
  simp [Bind.bind, andThen, h]

theorem bind_apply_of_error {t : Action α} {next : α → Action β} {d : Disk} {f : Fault}
    (h : (t d).result = .error f) :
    (t >>= next) d = ⟨(t d).disk, (t d).journal, .error f⟩ := by
  simp [Bind.bind, andThen, h]

end Action

end HashedImports
