namespace SimplexTableau

/-!
# Words of 64 bits

Counts and indices that come from a text have to fit into a word of 64 bits.
-/

/-- The first natural number that does not fit into a word of 64 bits. -/
def wordLimit : Nat := 0x10000000000000000

end SimplexTableau
