import Mathlib.Data.List.TakeWhile
import Parley.Admission
import Parley.Config.Loading

/-! What a configuration without problems promises.

The two checks of addresses are made by readers of their own. One reads an address forwards, part
by part, and each part leaves what is behind it (`Takes`); the other cuts the address at its last
colon (`isHostPort_iff`). What is left of a socket address at the end is its colon and its number,
which has digits alone, so that the colon is the last one: what a server can bind, a client can
dial (`bound_address_can_be_dialed`).

The numbers of slots are not checked. There is always a slot, but the numbers are passed on as they
are (`slots_are_unchecked`), and a text that asks for more slots than there can be is a
configuration without problems (`too_many_slots_pass`). -/

namespace Parley.Address

variable {f g : List Char → Option (List Char)} {c : Char} {radix n : Nat} {colon : Bool}
  {cs rest digits : List Char}

/-! ### What readers leave -/

/-- A reader that takes a character at least, and leaves those after the ones that it takes. -/
def Takes (f : List Char → Option (List Char)) : Prop :=
  ∀ cs rest, f cs = some rest → rest <:+ cs ∧ rest.length < cs.length

/-- One reader after another. -/
theorem Takes.bind (hf : Takes f) (hg : Takes g) : Takes fun cs => f cs >>= g := by
  intro cs rest h
  obtain ⟨left, hleft, hrest⟩ := Option.bind_eq_some_iff.mp h
  obtain ⟨hleft, hless⟩ := hf cs left hleft
  obtain ⟨hrest, hless'⟩ := hg left rest hrest
  exact ⟨hrest.trans hleft, Nat.lt_trans hless' hless⟩

theorem skip?_eq_some (h : skip? c cs = some rest) : cs = c :: rest := by
  cases cs with
  | nil => cases h
  | cons d ds =>
    rw [skip?] at h
    split at h
    · rename_i hd
      cases h
      rw [hd]
    · cases h

theorem takes_skip (c : Char) : Takes (skip? c) := by
  intro cs rest h
  rw [skip?_eq_some h]
  exact ⟨List.suffix_cons c rest, Nat.lt_succ_self _⟩

/-- A numeral is some digits, and what follows them is left. -/
theorem numeral?_eq_some (h : numeral? radix cs = some (digits, rest)) :
    cs = digits ++ rest ∧ digits ≠ [] ∧ digits.all (isDigit radix) = true := by
  unfold numeral? at h
  split at h
  · cases h
  · rename_i hne
    cases h
    exact ⟨List.takeWhile_append_dropWhile.symm, hne, List.all_takeWhile⟩

/-- A numeral with something to be said about its digits. -/
theorem takes_numeral (radix : Nat) (p : List Char → Prop) [DecidablePred p] :
    Takes fun cs => (numeral? radix cs).bind fun (digits, rest) =>
      if p digits then some rest else none := by
  intro cs rest h
  obtain ⟨⟨digits, left⟩, hnumeral, hrest⟩ := Option.bind_eq_some_iff.mp h
  obtain ⟨rfl, hne, -⟩ := numeral?_eq_some hnumeral
  simp only [Option.ite_none_right_eq_some, Option.some.injEq] at hrest
  obtain ⟨-, rfl⟩ := hrest
  refine ⟨List.suffix_append _ _, ?_⟩
  rw [List.length_append]
  exact Nat.lt_add_of_pos_left (List.length_pos_iff.mpr hne)

theorem takes_octet : Takes octet? :=
  takes_numeral 10 fun digits => digits.length ≤ 3 ∧ value 10 digits ≤ 255 ∧
    (digits.head? = some '0' → digits.length = 1)

theorem takes_group : Takes group? := takes_numeral 16 (·.length ≤ 4)

theorem takes_ipv4 : Takes ipv4? :=
  takes_octet.bind ((takes_skip '.').bind (takes_octet.bind ((takes_skip '.').bind
    (takes_octet.bind ((takes_skip '.').bind takes_octet)))))

theorem takes_scope : Takes scope? :=
  (takes_skip '%').bind (takes_numeral 10 (value 10 · < UInt32.size))

/-- Groups of an IPv6 address leave the characters after them; there may be none. -/
theorem suffix_groups (n : Nat) (colon : Bool) (cs : List Char) :
    (groups n colon cs).rest <:+ cs := by
  induction n generalizing colon cs with
  | zero => exact List.suffix_rfl
  | succ n ih =>
    have hitem : ∀ item, (if colon then skip? ':' cs else some cs) = some item → item <:+ cs := by
      intro item h
      cases colon with
      | true => exact (takes_skip ':' cs item h).1
      | false => cases h; exact List.suffix_rfl
    unfold groups
    dsimp only
    split
    · rename_i rest h
      split at h
      · cases h
      · obtain ⟨item, hsome, hrest⟩ := Option.bind_eq_some_iff.mp h
        exact (takes_ipv4 item rest hrest).1.trans (hitem item hsome)
    · split
      · rename_i rest h
        obtain ⟨item, hsome, hrest⟩ := Option.bind_eq_some_iff.mp h
        exact (ih true rest).trans ((takes_group item rest hrest).1.trans (hitem item hsome))
      · exact List.suffix_rfl

theorem suffix_ipv6 (h : ipv6? cs = some rest) : rest <:+ cs := by
  have hfront := suffix_groups 8 false cs
  unfold ipv6? at h
  dsimp only at h
  split at h
  · cases h
    exact hfront
  · split at h
    · cases h
    · obtain ⟨cs₁, h₁, h⟩ := Option.bind_eq_some_iff.mp h
      obtain ⟨cs₂, h₂, h⟩ := Option.bind_eq_some_iff.mp h
      cases h
      have hskipped := (takes_skip ':' _ _ h₂).1.trans (takes_skip ':' _ _ h₁).1
      exact (suffix_groups _ false cs₂).trans (hskipped.trans hfront)

theorem takes_bracketed : Takes bracketed? := by
  intro cs rest h
  obtain ⟨cs₁, h₁, h⟩ := Option.bind_eq_some_iff.mp h
  obtain ⟨cs₂, h₂, h⟩ := Option.bind_eq_some_iff.mp h
  obtain ⟨h₁, hless⟩ := takes_skip '[' cs cs₁ h₁
  have hscope : (scope? cs₂).getD cs₂ <:+ cs₂ := by
    cases hscope : scope? cs₂ with
    | none => exact List.suffix_rfl
    | some cs₃ => exact (takes_scope cs₂ cs₃ hscope).1
  have hrest := (takes_skip ']' _ _ h).1.trans (hscope.trans (suffix_ipv6 h₂))
  exact ⟨hrest.trans h₁, Nat.lt_of_le_of_lt hrest.length_le hless⟩

/-! ### The number after the last colon -/

/-- The number that ends an address has digits alone. -/
theorem portSuffix?_eq_nil (h : portSuffix? cs = some []) :
    ∃ port, cs = ':' :: port ∧ port ≠ [] ∧ port.all (isDigit 10) = true ∧
      value 10 port < UInt16.size := by
  obtain ⟨port, hskip, h⟩ := Option.bind_eq_some_iff.mp h
  obtain ⟨⟨digits, rest⟩, hnumeral, h⟩ := Option.bind_eq_some_iff.mp h
  simp only [Option.ite_none_right_eq_some, Option.some.injEq] at h
  obtain ⟨hsize, rfl⟩ := h
  obtain ⟨heq, hne, hdigits⟩ := numeral?_eq_some hnumeral
  rw [List.append_nil] at heq
  rw [skip?_eq_some hskip, heq]
  exact ⟨digits, rfl, hne, hdigits, hsize⟩

/-- The number of a socket address is behind its last colon, and its host before it. -/
theorem split_of_isSocketAddress {s : String} (h : isSocketAddress s = true) :
    ∃ host port, s.toList = host ++ ':' :: port ∧ host ≠ [] ∧ port ≠ [] ∧
      port.all (isDigit 10) = true ∧ value 10 port < UInt16.size := by
  have hread : ∃ f, Takes f ∧ (f s.toList >>= portSuffix?) = some [] := by
    rcases Bool.or_eq_true_iff.mp h with h | h
    · exact ⟨ipv4?, takes_ipv4, eq_of_beq h⟩
    · exact ⟨bracketed?, takes_bracketed, eq_of_beq h⟩
  obtain ⟨f, hf, h⟩ := hread
  obtain ⟨rest, hrest, h⟩ := Option.bind_eq_some_iff.mp h
  obtain ⟨port, rfl, hport⟩ := portSuffix?_eq_nil h
  obtain ⟨⟨host, hhost⟩, hless⟩ := hf _ _ hrest
  refine ⟨host, port, hhost.symm, ?_, hport⟩
  rintro rfl
  rw [← hhost, List.nil_append] at hless
  exact Nat.lt_irrefl _ hless

/-- A list behind whose last `x` there are no more is cut there by the search from its end. -/
theorem cut_at_last {x : Char} {back : List Char} (front : List Char) (h : x ∉ back) :
    (front ++ x :: back).reverse.takeWhile (· ≠ x) = back.reverse ∧
      (front ++ x :: back).reverse.dropWhile (· ≠ x) = x :: front.reverse := by
  have hpass : ∀ y ∈ back.reverse, decide (y ≠ x) = true := fun y hy =>
    decide_eq_true fun heq => h (heq ▸ List.mem_reverse.mp hy)
  rw [List.reverse_append, List.reverse_cons, List.append_assoc, List.singleton_append]
  constructor
  · rw [List.takeWhile_append_of_pos hpass, List.takeWhile_cons_of_neg (by simp), List.append_nil]
  · rw [List.dropWhile_append_of_pos hpass, List.dropWhile_cons_of_neg (by simp)]

/-- The address of a host is a name, the last colon, and a number of 16 bits. -/
theorem isHostPort_iff {s : String} :
    isHostPort s = true ↔
      ∃ host port, s.toList = host ++ ':' :: port ∧ host ≠ [] ∧ ':' ∉ port ∧
        isPortText port = true := by
  unfold isHostPort
  dsimp only
  constructor
  · intro h
    split at h
    · cases h
    · rename_i c host hdrop
      obtain ⟨hhost, hport⟩ := Bool.and_eq_true_iff.mp h
      have hhead := List.head_dropWhile_not (fun d => decide (d ≠ ':'))
        (show s.toList.reverse.dropWhile _ ≠ [] by rw [hdrop]; exact List.cons_ne_nil c host)
      obtain rfl : c = ':' := by simpa only [hdrop, List.head_cons, decide_eq_false_iff_not,
        not_not] using hhead
      have hsplit := List.takeWhile_append_dropWhile (p := (· ≠ ':')) (l := s.toList.reverse)
      rw [hdrop] at hsplit
      refine ⟨host.reverse, _, ?_, by simpa using hhost, fun hcolon => ?_, hport⟩
      · have hreverse := congrArg List.reverse hsplit
        rw [List.reverse_append, List.reverse_cons, List.append_assoc, List.reverse_reverse]
          at hreverse
        exact hreverse.symm
      · have hne := List.mem_takeWhile_imp (List.mem_reverse.mp hcolon)
        exact absurd hne (by decide)
  · rintro ⟨host, port, hs, hhost, hcolon, hport⟩
    obtain ⟨htake, hdrop⟩ := cut_at_last host hcolon
    rw [hs, htake, hdrop]
    simp [hhost, hport]

/-- A number of digits alone is one of those that may follow a host. -/
theorem isPortText_of_digits {port : List Char} (hne : port ≠ [])
    (hdigits : port.all (isDigit 10) = true) (hsize : value 10 port < UInt16.size) :
    ':' ∉ port ∧ isPortText port = true := by
  have hall := List.all_eq_true.mp hdigits
  have hplus : port.head? ≠ some '+' := fun hhead =>
    absurd (hall '+' (List.mem_of_head? hhead)) (by decide)
  refine ⟨fun hcolon => absurd (hall ':' hcolon) (by decide), ?_⟩
  unfold isPortText
  rw [if_neg hplus]
  simp [hne, hdigits, hsize]

end Parley.Address

namespace Parley.Config
open Address

variable {c : Config} {field : Field} {fault : Option Fault}

theorem mem_check {field' : Field} :
    field ∈ ((fault.map (Problem.mk field')).toList).map (·.field) ↔
      field = field' ∧ fault ≠ none := by
  cases fault <;> simp

/-! ### Addresses -/

/-- A problem with an address is one that its own check finds. -/
theorem mem_bindAddress :
    Field.bindAddress ∈ c.problems.map (·.field) ↔
      isSocketAddress c.server.bindAddress = false := by
  simp only [problems, List.map_append, List.mem_append, mem_check, checkSocketAddress]
  simp

theorem mem_address :
    Field.address ∈ c.problems.map (·.field) ↔ isHostPort c.client.address = false := by
  simp only [problems, List.map_append, List.mem_append, mem_check, checkHostPort]
  simp

/-- **What a server can bind, a client can dial.** If validation has nothing against a string as
the server's address, then a number of 16 bits is behind its last colon and something before it,
and validation has nothing against it as the client's address, whatever else is configured. -/
theorem bound_address_can_be_dialed {s : String} (hs : c.server.bindAddress = s)
    (h : Field.bindAddress ∉ c.problems.map (·.field)) :
    (∃ host port, s.toList = host ++ ':' :: port ∧ host ≠ [] ∧ ':' ∉ port ∧
      isPortText port = true) ∧
    ∀ c' : Config, c'.client.address = s → Field.address ∉ c'.problems.map (·.field) := by
  rw [mem_bindAddress, hs, Bool.not_eq_false] at h
  obtain ⟨host, port, hsplit, hhost, hport, hdigits, hsize⟩ := split_of_isSocketAddress h
  obtain ⟨hcolon, htext⟩ := isPortText_of_digits hport hdigits hsize
  refine ⟨⟨host, port, hsplit, hhost, hcolon, htext⟩, fun c' hc' => ?_⟩
  rw [mem_address, hc', Bool.not_eq_false]
  exact isHostPort_iff.mpr ⟨host, port, hsplit, hhost, hcolon, htext⟩

/-- An address with an IPv4 address at its end, a scope, and a number with leading zeros. -/
theorem scoped_address_can_be_dialed :
    Field.bindAddress ∉ ({ server := { bindAddress := "[::ffff:10.0.0.1%3]:00080" } } :
        Config).problems.map (·.field) ∧
      Field.address ∉ ({ client := { address := "[::ffff:10.0.0.1%3]:00080" } } :
        Config).problems.map (·.field) := by
  have hbound : Field.bindAddress ∉ ({ server :=
      { bindAddress := "[::ffff:10.0.0.1%3]:00080" } } : Config).problems.map (·.field) := by
    decide +kernel
  exact ⟨hbound, (bound_address_can_be_dialed rfl hbound).2 _ rfl⟩

/-! ### Slots -/

/-- The most slots that there can be: they are counted in a word of 64 bits, three of which are
taken. Asking for more ends the program. -/
def mostSlots : Nat := (UInt64.size - 1) >>> 3

/-- A server and a client can be made: the slots of each can be counted. -/
def CanStart (c : Config) : Prop := c.server.slots ≤ mostSlots ∧ c.client.slots ≤ mostSlots

theorem positiveOr_pos {value fallback : Nat} (h : 0 < fallback) :
    0 < positiveOr value fallback := by
  unfold positiveOr
  split
  · exact h
  · rename_i hne
    exact Nat.pos_of_ne_zero hne

theorem positiveOr_le_iff {value fallback most : Nat} (h : fallback ≤ most) :
    positiveOr value fallback ≤ most ↔ value ≤ most := by
  unfold positiveOr
  split
  · rename_i hzero
    exact iff_of_true h (hzero ▸ Nat.zero_le most)
  · exact Iff.rfl

/-- **The numbers of slots are not checked.** There is always a slot. Whether a server and a client
can be made depends on the numbers that are configured, and validation does not look at them. -/
theorem slots_are_unchecked (c : Config) :
    (1 ≤ c.server.slots ∧ 1 ≤ c.client.slots) ∧
      (c.CanStart ↔
        c.server.maxConnections ≤ mostSlots ∧ c.client.maxConnections ≤ mostSlots) ∧
      ∀ n m, ({ c with
        server := { c.server with maxConnections := n }
        client := { c.client with maxConnections := m } } : Config).problems = c.problems := by
  refine ⟨⟨positiveOr_pos (by decide), positiveOr_pos (by decide)⟩, ?_, fun n m => rfl⟩
  exact and_congr (positiveOr_le_iff (by decide)) (positiveOr_le_iff (by decide))

/-- A text that asks for one slot more than there can be spells a configuration without problems,
under which no server can be made. -/
theorem too_many_slots_pass : ∃ c : Config,
    parse "[server]\nmax_connections = 2305843009213693952" = .ok c ∧ c.problems = [] ∧
      c.server.slots = mostSlots + 1 ∧ ¬ c.CanStart := by
  refine ⟨{ server := { maxConnections := 2305843009213693952 } }, ?_, ?_, ?_, ?_⟩
  · decide +kernel
  · decide +kernel
  · decide
  · intro h
    exact absurd h.1 (by decide)

end Parley.Config
