import UsbWs.Qr

/-!
# The command line

`Cli.parse` goes through the arguments from the left. One that begins with two
dashes is a flag: it has its value after a `=`, or in the next argument unless
that begins with two dashes as well, or it has none. All other arguments are
positional.

`Item` is what a user means by one or two arguments. The parser gets back the
items of every command line in which a flag without a value is not followed by
a positional (`Cli.parse_items`): one turn of the loop takes one item, however
many arguments it is made of.
-/

namespace UsbWs

open Text

/-! ## The parser -/

abbrev Arg := List Char

def dashes : Arg := ['-', '-']

/-- The flags are a map: a later value replaces an earlier one. -/
structure Cli where
  positionals : List Arg
  flags : Arg → Option Arg

namespace Cli

def flag (cli : Cli) (name : Arg) : Option Arg := cli.flags name

def push (cli : Cli) (a : Arg) : Cli := { cli with positionals := cli.positionals ++ [a] }

def insert (cli : Cli) (name value : Arg) : Cli :=
  { cli with flags := Function.update cli.flags name (some value) }

/-- The loop of `parse`, over the arguments from the index on. -/
def parse.loop (cli : Cli) : List Arg → Cli
  | [] => cli
  | a :: rest =>
      match stripPrefix dashes a with
      | none => loop (cli.push a) rest
      | some name =>
          match splitOnceChar '=' name with
          | some (k, v) => loop (cli.insert k v) rest
          | none =>
              match rest with
              | next :: after =>
                  if stripPrefix dashes next = none then loop (cli.insert name next) after
                  else loop (cli.insert name []) (next :: after)
              | [] => cli.insert name []

def parse (args : List Arg) : Cli := parse.loop ⟨[], fun _ => none⟩ args

end Cli

inductive PeerError where
  | required
  | invite (e : QrError)

/-- The peer of `--peer`, or else of the positional at an index, or else of the
environment. -/
def resolvePeer {K : Type} (B : Base64Codec) (fromBytes : U8Array 32 → Option K) (cli : Cli)
    (positionalIndex : Option Nat) (usbwsPeer : Option Arg) : Except PeerError (Peer K) :=
  match ((cli.flag ['p', 'e', 'e', 'r']).or
      (positionalIndex.bind fun i => cli.positionals[i]?)).or usbwsPeer with
  | none => .error .required
  | some invite => (decodeQr B fromBytes invite).mapError .invite

/-! ## What a command line says -/

/-- A positional, a flag written `--k=v`, one written `--k v`, or one without a
value. -/
inductive Item where
  | positional (a : Arg)
  | joined (k v : Arg)
  | separate (k v : Arg)
  | valueless (k : Arg)
  deriving DecidableEq

namespace Item

/-- The arguments that an item is written as. -/
def args : Item → List Arg
  | positional a => [a]
  | joined k v => [dashes ++ (k ++ '=' :: v)]
  | separate k v => [dashes ++ k, v]
  | valueless k => [dashes ++ k]

def positional? : Item → Option Arg
  | positional a => some a
  | _ => none

/-- The name of a flag, and its value. -/
def flag? : Item → Option (Arg × Arg)
  | positional _ => none
  | joined k v | separate k v => some (k, v)
  | valueless k => some (k, [])

/-- What may be in an item. -/
def Ok : Item → Prop
  | positional a => ¬ dashes <+: a
  | joined k _ => '=' ∉ k
  | separate k v => '=' ∉ k ∧ ¬ dashes <+: v
  | valueless k => '=' ∉ k

instance : ∀ item : Item, Decidable item.Ok
  | positional _ => inferInstanceAs (Decidable (¬ _))
  | joined _ _ | valueless _ => inferInstanceAs (Decidable (¬ _))
  | separate _ _ => inferInstanceAs (Decidable (¬ _ ∧ ¬ _))

/-- What may stand after an item: behind a flag without a value no positional. -/
def MayPrecede : Item → List Item → Prop
  | valueless _, next :: _ => next.flag?.isSome = true
  | _, _ => True

instance : ∀ (item : Item) (items : List Item), Decidable (item.MayPrecede items)
  | valueless _, next :: _ => inferInstanceAs (Decidable (next.flag?.isSome = true))
  | valueless _, [] | positional _, _ | joined _ _, _ | separate _ _, _ => isTrue trivial

def WellFormed : List Item → Prop
  | [] => True
  | item :: items => item.Ok ∧ item.MayPrecede items ∧ WellFormed items

instance decidableWellFormed : ∀ items : List Item, Decidable (WellFormed items)
  | [] => isTrue trivial
  | item :: items =>
      have := decidableWellFormed items
      inferInstanceAs (Decidable (item.Ok ∧ item.MayPrecede items ∧ WellFormed items))

/-- A flag with a value. -/
def valued : Item → Bool
  | joined _ _ | separate _ _ => true
  | _ => false

/-- The value of the last flag with a name. -/
def lastValue (items : List Item) (k : Arg) : Option Arg :=
  ((items.filterMap flag?).filter fun f => f.1 = k).getLast?.map (·.2)

/-- What an item adds to what was parsed before it. -/
def addTo (cli : Cli) : Item → Cli
  | positional a => cli.push a
  | joined k v | separate k v => cli.insert k v
  | valueless k => cli.insert k []

/-! ## One item -/

variable {item : Item} {items : List Item}

/-- A flag begins with dashes. -/
theorem args_of_flag (h : item.flag?.isSome = true) :
    ∃ name rest, item.args = (dashes ++ name) :: rest := by
  cases item with
  | positional a => cases h
  | joined k v => exact ⟨k ++ '=' :: v, [], rfl⟩
  | separate k v => exact ⟨k, [v], rfl⟩
  | valueless k => exact ⟨k, [], rfl⟩

/-- The loop takes the arguments of an item, and does what the item says. -/
theorem loop_item (cli : Cli) (hok : item.Ok) (hnext : item.MayPrecede items) :
    Cli.parse.loop cli (item.args ++ items.flatMap args) =
      Cli.parse.loop (addTo cli item) (items.flatMap args) := by
  cases item with
  | positional a =>
      rw [args, List.singleton_append, Cli.parse.loop, stripPrefix_eq_none.2 hok]
      rfl
  | joined k v =>
      rw [args, List.singleton_append, Cli.parse.loop, stripPrefix_append]
      simp only [splitOnceChar_append hok]
      rfl
  | separate k v =>
      obtain ⟨hk, hv⟩ := hok
      rw [args, List.cons_append, List.singleton_append, Cli.parse.loop, stripPrefix_append]
      simp only [splitOnceChar_of_not_mem hk, if_pos (stripPrefix_eq_none.2 hv)]
      rfl
  | valueless k =>
      rw [args, List.singleton_append]
      cases items with
      | nil =>
          show Cli.parse.loop cli [dashes ++ k] = cli.insert k []
          rw [Cli.parse.loop, stripPrefix_append]
          simp only [splitOnceChar_of_not_mem hok]
      | cons next items =>
          -- the next item is a flag, so its first argument is no value
          obtain ⟨name, rest, hargs⟩ := args_of_flag hnext
          rw [List.flatMap_cons, hargs, List.cons_append, Cli.parse.loop, stripPrefix_append]
          simp only [splitOnceChar_of_not_mem hok, stripPrefix_append]
          rfl

/-! ## A command line -/

/-- The loop takes one item after the other. -/
theorem loop_items (h : WellFormed items) (cli : Cli) :
    Cli.parse.loop cli (items.flatMap args) = items.foldl addTo cli := by
  induction items generalizing cli with
  | nil => rfl
  | cons item items ih =>
      obtain ⟨hok, hnext, hrest⟩ := h
      rw [List.flatMap_cons, loop_item cli hok hnext, ih hrest, List.foldl_cons]

theorem positionals_foldl (cli : Cli) (items : List Item) :
    (items.foldl addTo cli).positionals = cli.positionals ++ items.filterMap positional? := by
  induction items generalizing cli with
  | nil => exact (List.append_nil _).symm
  | cons item items ih =>
      rw [List.foldl_cons, ih]
      cases item with
      | positional a => simp [addTo, Cli.push, positional?]
      | joined k v | separate k v | valueless k => rfl

theorem lastValue_concat (items : List Item) (item : Item) (k : Arg) :
    lastValue (items ++ [item]) k =
      match item.flag? with
      | some (name, v) => if name = k then some v else lastValue items k
      | none => lastValue items k := by
  rw [lastValue, List.filterMap_append, List.filter_append]
  cases hf : item.flag? with
  | none => simp [hf, lastValue]
  | some f =>
      by_cases hk : f.1 = k
      · simp [hf, hk]
      · simp [hf, hk, lastValue]

theorem flags_addTo (cli : Cli) (item : Item) (k : Arg) :
    (addTo cli item).flags k =
      match item.flag? with
      | some (name, v) => if name = k then some v else cli.flags k
      | none => cli.flags k := by
  cases item with
  | positional a => rfl
  | joined name v | separate name v | valueless name =>
      simp only [addTo, flag?, Cli.insert, Function.update_apply, eq_comm]

theorem flags_foldl (items : List Item) (k : Arg) :
    (items.foldl addTo ⟨[], fun _ => none⟩).flags k = lastValue items k := by
  induction items using List.reverseRecOn with
  | nil => rfl
  | append_singleton items item ih =>
      rw [List.foldl_append, List.foldl_cons, List.foldl_nil, flags_addTo, lastValue_concat, ih]

/-- Valued flags are no positionals. -/
theorem positionals_filter (items : List Item) :
    (items.filter fun item => !item.valued).filterMap positional? =
      items.filterMap positional? := by
  rw [List.filterMap_filter]
  refine List.filterMap_congr fun item _ => ?_
  cases item <;> rfl

theorem WellFormed.ok (h : WellFormed items) : ∀ item ∈ items, item.Ok := by
  induction items with
  | nil => exact fun item hitem => absurd hitem List.not_mem_nil
  | cons item items ih =>
      obtain ⟨hok, -, hrest⟩ := h
      exact List.forall_mem_cons.2 ⟨hok, ih hrest⟩

/-- Without flags that have no value, all orders of the items are allowed. -/
theorem wellFormed_of_forall (hok : ∀ item ∈ items, item.Ok)
    (hvalue : ∀ k, valueless k ∉ items) : WellFormed items := by
  induction items with
  | nil => trivial
  | cons item items ih =>
      obtain ⟨hitem, hrest⟩ := List.forall_mem_cons.1 hok
      refine ⟨hitem, ?_, ih hrest fun k hk => hvalue k (List.mem_cons_of_mem _ hk)⟩
      cases item with
      | valueless k => exact absurd List.mem_cons_self (hvalue k)
      | positional a | joined k v | separate k v => trivial

end Item

namespace Cli

open Item

variable {items : List Item}

theorem positionals_parse (h : WellFormed items) :
    (parse (items.flatMap args)).positionals = items.filterMap positional? := by
  rw [parse, loop_items h, positionals_foldl]
  rfl

theorem flag_parse (h : WellFormed items) (k : Arg) :
    (parse (items.flatMap args)).flag k = lastValue items k := by
  rw [parse, loop_items h, flag, flags_foldl]

/-- A command line is read as it was meant: the positionals in their order, for
every name the value of the last flag with it, and no other flags. Flags with a
value may so be moved among the others, wherever the command line stays well
formed; without flags that have no value that is anywhere. -/
theorem parse_items (items : List Item) (h : WellFormed items) :
    (parse (items.flatMap args)).positionals = items.filterMap positional? ∧
    (∀ k, (parse (items.flatMap args)).flag k = lastValue items k) ∧
    ∀ moved : List Item, moved.Perm items →
      (moved.filter fun item => !item.valued) = (items.filter fun item => !item.valued) →
      WellFormed moved ∨ (∀ k, valueless k ∉ items) →
        (parse (moved.flatMap args)).positionals = (parse (items.flatMap args)).positionals := by
  refine ⟨positionals_parse h, flag_parse h, fun moved hperm hsame hmoved => ?_⟩
  have hwf : WellFormed moved := by
    rcases hmoved with hwf | hvalue
    · exact hwf
    · refine wellFormed_of_forall (fun item hitem => h.ok item (hperm.subset hitem)) ?_
      exact fun k hk => hvalue k (hperm.subset hk)
  rw [positionals_parse hwf, positionals_parse h, ← positionals_filter moved, hsame,
    positionals_filter]

/-- A flag of two arguments, one without a value in front of another flag, and a
value with a `=` in it; the first flag may be moved behind the positional. -/
theorem parse_mixed :
    (parse [['-', '-', 'k'], ['-', 'v'], ['-', '-', 'a'], ['-', '-', 'k', '=', 'x', '=', 'y'],
      ['p']]).flag ['k'] = some ['x', '=', 'y'] ∧
    (parse [['-', '-', 'a'], ['-', '-', 'k', '=', 'x', '=', 'y'], ['p'], ['-', '-', 'k'],
      ['-', 'v']]).positionals = (parse [['-', '-', 'k'], ['-', 'v'], ['-', '-', 'a'],
      ['-', '-', 'k', '=', 'x', '=', 'y'], ['p']]).positionals := by
  obtain ⟨-, hflag, hmoved⟩ := parse_items
    [.separate ['k'] ['-', 'v'], .valueless ['a'], .joined ['k'] ['x', '=', 'y'],
      .positional ['p']] (by decide)
  exact ⟨hflag ['k'], hmoved [.valueless ['a'], .joined ['k'] ['x', '=', 'y'], .positional ['p'],
    .separate ['k'] ['-', 'v']] (by decide) rfl (Or.inl (by decide))⟩

end Cli

end UsbWs
