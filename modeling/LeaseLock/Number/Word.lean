/-!
# Machine words

Times and counts are natural numbers here, but some of them travel as machine words. These are the
bounds of those words, written out.
-/

namespace LeaseLock

/-- The least number too large for an unsigned word of 64 bits, two to the power of 64. -/
def wordBound : Nat := 18446744073709551616

/-- The least number too large for a signed word of 64 bits, two to the power of 63. -/
def signedBound : Nat := 9223372036854775808

end LeaseLock
