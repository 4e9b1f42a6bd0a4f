/-
Duplex/Proofs/Net/Endpoints.lean

Hosts that are literal addresses.

An endpoint is read back from its text (`Endpoint.parse?_text`), and the text of
an address, as a host, names the endpoint with that address and the port of the
binding, with brackets and without them.

The other way round a host may be anything, and colons and digits in it could
pass for a port.  But a port is read up to the end of the text and has no colon
in it, so it is what stands behind the last colon, and that is the port of the
binding (`Binding.port_of_endpoint?`).
-/
import Duplex.Net.Endpoint
import Duplex.Proofs.Net.Addresses

namespace Duplex

open Net Text

namespace Endpoint

/-- The port of an endpoint. -/
def port : Endpoint → UInt16
  | .v4 _ port => port
  | .v6 _ _ port => port

/-! ### Endpoints are read back -/

theorem stops_of_ne {c : Char} (h : digit? 10 c = none) (cs : List Char) : Stops 10 (c :: cs) := by
  intro c' hc
  rwa [← Option.some.inj hc]

theorem port?_chars (port : UInt16) : port? (':' :: Decimal.chars port.toNat) = some port := by
  have hread : number? portDigits (Decimal.chars port.toNat ++ []) = some (port.toNat, []) :=
    number?_toDigits portDigits (.inl rfl) (Nat.le_of_lt_succ port.toNat_lt)
      (by intro l hl; cases hl) (by intro c hc; cases hc)
  rw [List.append_nil] at hread
  simp [port?, hread]

/-- The scope as it is written. -/
theorem scope?_chars (scope : UInt32) (cs : List Char) :
    scope? ((if scope = 0 then [] else '%' :: Decimal.chars scope.toNat) ++ ']' :: cs) =
      some (scope, ']' :: cs) := by
  split
  · rename_i h
    simp [scope?, h]
  · have hread : number? scopeDigits (Decimal.chars scope.toNat ++ ']' :: cs) =
        some (scope.toNat, ']' :: cs) :=
      number?_toDigits scopeDigits (.inl rfl) (Nat.le_of_lt_succ scope.toNat_lt)
        (by intro l hl; cases hl) (stops_of_ne (by decide) cs)
    simp [scope?, hread]

/-- Behind an address stands a bracket or a scope. -/
theorem endsGroups_scope (scope : UInt32) (cs : List Char) : Ipv6.EndsGroups
    ((if scope = 0 then [] else '%' :: Decimal.chars scope.toNat) ++ ']' :: cs) := by
  have other {c : Char} (hc : digit? 16 c = none ∧ c ≠ '.') (hne : c ≠ ':') (cs : List Char) :
      Ipv6.EndsGroups (c :: cs) := by
    refine ⟨?_, ?_⟩
    · intro c' hc'
      rwa [← Option.some.inj hc']
    · intro cs' hcs
      exact absurd (List.cons.inj hcs).1 hne
  split
  · exact other (by decide) (by decide) _
  · exact other (by decide) (by decide) _

theorem bracketed?_chars (ip : Ipv6) (scope : UInt32) (port : UInt16) :
    bracketed? (ip.chars ++ ((if scope = 0 then [] else '%' :: Decimal.chars scope.toNat) ++
      ']' :: ':' :: Decimal.chars port.toNat)) = some (.v6 ip scope port) := by
  simp only [bracketed?, Ipv6.read?_chars ip (endsGroups_scope scope _), scope?_chars, port?_chars,
    Option.map_some]

/-- A text without a bracket in front names a version 4 endpoint, or none. -/
theorem parseChars?_of_ne {cs : List Char} (h : cs.head? ≠ some '[') :
    parseChars? cs = (Ipv4.read? cs).bind fun r => (port? r.2).map (.v4 r.1) := by
  unfold parseChars?
  split
  · exact absurd rfl h
  · rcases Ipv4.read? cs with - | ⟨ip, cs⟩ <;> rfl

theorem head?_ne {c : Char} {cs : List Char} (h : c ∉ cs) : cs.head? ≠ some c :=
  fun hc => h (List.mem_of_head? hc)

/-- **An endpoint is read back from its text.** -/
theorem parse?_text (e : Endpoint) : parse? e.text = some e := by
  rw [parse?, text, String.toList_ofList]
  cases e with
  | v4 ip port =>
    have hne : (chars (.v4 ip port)).head? ≠ some '[' := by
      apply head?_ne
      have haddress : '[' ∉ ip.chars := Ipv4.not_mem_chars (by decide) (by decide) ip
      have hport : '[' ∉ Decimal.chars port.toNat := not_mem_toDigits (.inl rfl) (by decide) _
      simp [chars, haddress, hport]
    have hread : Ipv4.read? (chars (.v4 ip port)) = some (ip, ':' :: Decimal.chars port.toNat) :=
      Ipv4.read?_chars ip (stops_of_ne (by decide) _)
    rw [parseChars?_of_ne hne, hread, Option.bind_some, port?_chars, Option.map_some]
  | v6 ip scope port =>
    rw [chars, List.append_assoc]
    exact bracketed?_chars ip scope port

/-! ### Ports -/

/-- What is read as a port has no colon in it. -/
theorem of_port? {cs : List Char} {port : UInt16} (h : port? cs = some port) :
    ∃ ds n, cs = ':' :: ds ∧ ':' ∉ ds ∧ number? portDigits ds = some (n, []) ∧ port = .ofNat n := by
  unfold port? at h
  split at h
  · split at h
    · rename_i ds _ n hread
      refine ⟨ds, n, rfl, fun hmem => ?_, hread, (Option.some.inj h).symm⟩
      have hall := List.dropWhile_eq_nil_iff.mp (rest_of_number? hread).symm ':' hmem
      exact absurd hall (by decide)
    · cases h
  · cases h

theorem suffix_of_scope? {cs rest : List Char} {scope : UInt32}
    (h : scope? cs = some (scope, rest)) : rest <:+ cs := by
  unfold scope? at h
  split at h
  · obtain ⟨⟨n, rest'⟩, hread, he⟩ := Option.map_eq_some_iff.mp h
    rw [← (Prod.mk.inj he).2]
    exact (suffix_of_number? hread).trans (List.suffix_cons _ _)
  · obtain ⟨-, rfl⟩ := Prod.mk.inj (Option.some.inj h)
    exact List.suffix_rfl

/-- The port of an endpoint stands at the end of its text, behind a colon. -/
theorem of_parseChars? {cs : List Char} {e : Endpoint} (h : parseChars? cs = some e) :
    ∃ front ds n, cs = front ++ ':' :: ds ∧ ':' ∉ ds ∧
      number? portDigits ds = some (n, []) ∧ e.port = .ofNat n := by
  have hport : ∃ rest, rest <:+ cs ∧ port? rest = some e.port := by
    unfold parseChars? at h
    split at h
    · rename_i cs
      unfold bracketed? at h
      split at h
      · cases h
      · rename_i ip rest hread
        split at h
        · rename_i scope rest' hscope
          obtain ⟨port, hport, rfl⟩ := Option.map_eq_some_iff.mp h
          exact ⟨rest', (((List.suffix_cons _ _).trans (suffix_of_scope? hscope)).trans
            (Ipv6.suffix_of_read? hread)).trans (List.suffix_cons _ _), hport⟩
        · cases h
    · split at h
      · cases h
      · rename_i ip rest hread
        obtain ⟨port, hport, rfl⟩ := Option.map_eq_some_iff.mp h
        exact ⟨rest, Ipv4.suffix_of_read? hread, hport⟩
  obtain ⟨rest, ⟨front, rfl⟩, hrest⟩ := hport
  obtain ⟨ds, n, rfl, hds, hread, hn⟩ := of_port? hrest
  exact ⟨front, ds, n, rfl, hds, hread, hn⟩

end Endpoint

namespace Binding

/-- A text has one end behind its last colon. -/
theorem eq_of_append_cons {α : Type} {a : α} {l l' ds ds' : List α}
    (h : l ++ a :: ds = l' ++ a :: ds') (hds : a ∉ ds) (hds' : a ∉ ds') : ds = ds' := by
  rcases List.append_eq_append_iff.mp h with ⟨m, -, hm⟩ | ⟨m, -, hm⟩
  · cases m with
    | nil => exact (List.cons.inj hm).2
    | cons b m =>
      refine absurd ?_ hds
      rw [(List.cons.inj hm).2]
      simp
  · cases m with
    | nil => exact (List.cons.inj hm).2.symm
    | cons b m =>
      refine absurd ?_ hds'
      rw [(List.cons.inj hm).2]
      simp

/-- **No host brings a port of its own.** -/
theorem port_of_endpoint? {b : Binding} {e : Endpoint} (h : b.endpoint? = some e) :
    e.port = b.port := by
  obtain ⟨front, ds, n, htext, hds, hread, hport⟩ := Endpoint.of_parseChars? h
  have hsame : Decimal.chars b.port.toNat = ds :=
    eq_of_append_cons htext (not_mem_toDigits (.inl rfl) (by decide) _) hds
  have hback := Endpoint.port?_chars b.port
  rw [hsame, Endpoint.port?] at hback
  simp only [hread, Option.some.injEq] at hback
  rw [hport, hback]

/-! ### Literal hosts -/

/-- The text of a version 6 address gets brackets. -/
theorem needsBrackets_v6 (ip : Ipv6) : needsBrackets ip.chars = true := by
  have hbracket : '[' ∉ ip.chars :=
    Ipv6.not_mem_chars (by decide) (by decide) (by decide) ip
  have hcolon := Ipv6.colon_mem_chars ip
  simp [needsBrackets, hcolon, Endpoint.head?_ne hbracket]

/-- The text of a version 4 address gets none. -/
theorem needsBrackets_v4 (ip : Ipv4) : needsBrackets ip.chars = false := by
  have hcolon : ':' ∉ ip.chars := Ipv4.not_mem_chars (by decide) (by decide) ip
  simp [needsBrackets, hcolon]

theorem addressChars_v4 (ip : Ipv4) (port : UInt16) :
    ({ host := String.ofList ip.chars, port := port } : Binding).addressChars =
      (Endpoint.v4 ip port).chars := by
  simp [addressChars, hostChars, needsBrackets_v4, Endpoint.chars]

theorem addressChars_v6 (ip : Ipv6) (port : UInt16) :
    ({ host := String.ofList ip.chars, port := port } : Binding).addressChars =
      (Endpoint.v6 ip 0 port).chars := by
  simp [addressChars, hostChars, needsBrackets_v6, Endpoint.chars]

/-- A host in brackets gets no others. -/
theorem addressChars_bracketed (ip : Ipv6) (port : UInt16) :
    ({ host := String.ofList ('[' :: (ip.chars ++ [']'])), port := port } : Binding).addressChars =
      (Endpoint.v6 ip 0 port).chars := by
  simp [addressChars, hostChars, needsBrackets, Endpoint.chars]

/-- **A literal address is read back exactly.** The text of a version 4 address, as the host of a
binding, names that address with the port of the binding, and so does the text of a version 6
address, in brackets and without them.  Whatever the host is, an endpoint that it names has the port
of the binding, and is read back from its own text. -/
theorem endpoint?_literal :
    (∀ (ip : Ipv4) (port : UInt16),
      ({ host := String.ofList ip.chars, port := port } : Binding).endpoint? =
        some (.v4 ip port)) ∧
    (∀ (ip : Ipv6) (port : UInt16),
      ({ host := String.ofList ip.chars, port := port } : Binding).endpoint? =
        some (.v6 ip 0 port) ∧
      ({ host := String.ofList ('[' :: (ip.chars ++ [']'])), port := port } : Binding).endpoint? =
        some (.v6 ip 0 port)) ∧
    (∀ (b : Binding) (e : Endpoint), b.endpoint? = some e →
      e.port = b.port ∧ Endpoint.parse? e.text = some e) := by
  have named {b : Binding} {e : Endpoint} (h : b.addressChars = e.chars) :
      b.endpoint? = some e := by
    have hread := Endpoint.parse?_text e
    rwa [Endpoint.parse?, Endpoint.text, String.toList_ofList, ← h] at hread
  refine ⟨?v4, ?v6, ?back⟩
  case v4 =>
    intro ip port
    exact named (addressChars_v4 ip port)
  case v6 =>
    intro ip port
    exact ⟨named (addressChars_v6 ip port), named (addressChars_bracketed ip port)⟩
  case back =>
    intro b e h
    exact ⟨port_of_endpoint? h, Endpoint.parse?_text e⟩

/-- A host may bring a scope, but no port. -/
theorem endpoint?_literal_scoped :
    ({ host := "[::1]:9", port := 80 } : Binding).endpoint? = none ∧
    ∃ e, ({ host := "fe80::1%7", port := 80 } : Binding).endpoint? = some e ∧
      e.port = 80 ∧ Endpoint.parse? e.text = some e := by
  have hsome : ({ host := "fe80::1%7", port := 80 } : Binding).endpoint?.isSome = true := by
    decide +kernel
  obtain ⟨e, he⟩ := Option.isSome_iff_exists.mp hsome
  exact ⟨by decide +kernel, e, he, endpoint?_literal.2.2 _ e he⟩

end Binding

end Duplex
