import Gaiacoin.Shared.Wire
import Gaiacoin.Shared.Trim
import Gaiacoin.Shared.Decimal
import Gaiacoin.Shared.BitFields
import Gaiacoin.Shared.Sha256
import Gaiacoin.Shared.KeyedLoop
import Gaiacoin.Shared.Bits
import Gaiacoin.Shared.HashTree
import Gaiacoin.Primitives.Transaction
import Gaiacoin.Serialize.Basic
import Gaiacoin.Serialize.VarInt
import Gaiacoin.Serialize.Transaction
import Gaiacoin.Validation.CheckTransaction
import Gaiacoin.Coins.CCoins
import Gaiacoin.Coins.Compressor
import Gaiacoin.Coins.View
import Gaiacoin.Coins.Cache
import Gaiacoin.Validation.Undo
import Gaiacoin.Coins.CacheRefinement
import Gaiacoin.Consensus.Merkle
import Gaiacoin.Consensus.MerkleTree
import Gaiacoin.Shared.Digest160
import Gaiacoin.Shared.ErrorState
import Gaiacoin.Script.Script
import Gaiacoin.Script.Interpreter
import Gaiacoin.Script.Safety
import Gaiacoin.Script.ScriptNum
import Gaiacoin.Script.Push
import Gaiacoin.Shared.Limbs
import Gaiacoin.Arith.BaseUint
import Gaiacoin.Arith.Divide
import Gaiacoin.Arith.ArithUint256
import Gaiacoin.Consensus.Params
import Gaiacoin.Consensus.Pow
import Gaiacoin.Consensus.Kernel
import Gaiacoin.Shared.Median
import Gaiacoin.Shared.Memo
import Gaiacoin.Consensus.Chain
import Gaiacoin.Consensus.VersionBits
import Gaiacoin.Validation.LockTime
import Gaiacoin.Address.ConvertBits
import Gaiacoin.Address.CashAddr
import Gaiacoin.Address.CashAddrEnc
import Gaiacoin.Address.Base58
import Gaiacoin.Address.DstEncode
import Gaiacoin.Util.MoneyStr
import Gaiacoin.Util.StrEncodings
