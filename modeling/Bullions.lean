import Bullions.Lib.ListPrefix
import Bullions.Lib.Bytes
import Bullions.Lib.WriteLog
import Bullions.Lib.PrefixMap
import Bullions.Lib.ExceptSpec
import Bullions.Rlp.Item
import Bullions.Rlp.Encode
import Bullions.Rlp.Properties.EncBuf
import Bullions.Rlp.Decode
import Bullions.Rlp.Properties.Stream
import Bullions.Rlp.Properties.Decode
import Bullions.Trie.Encoding
import Bullions.Trie.Node
import Bullions.Trie.Trie
import Bullions.Trie.Hasher
import Bullions.Trie.StackTrie
import Bullions.Trie.Spec
import Bullions.Trie.Properties.Lookup
import Bullions.Trie.Properties.Insert
import Bullions.Trie.Properties.Delete
import Bullions.Trie.Properties.Run
import Bullions.Trie.Properties.Unique
import Bullions.Trie.Properties.History
import Bullions.Trie.Properties.Encoding
import Bullions.Trie.Properties.StackTrie
import Bullions.Params.Configurator
import Bullions.Vm.Operation
import Bullions.Vm.JumpTable
import Bullions.Vm.Properties.JumpTable
import Bullions.Vm.Memory
import Bullions.Vm.GasTable
import Bullions.Vm.Interpreter
import Bullions.Vm.Properties.Memory
import Bullions.Vm.Properties.Table
import Bullions.Vm.Properties.Run
import Bullions.Vm.Evm
import Bullions.Vm.Properties.Gas
import Bullions.Vm.Properties.GasExact
import Bullions.Core.StateTransition
import Bullions.Core.Properties.StateTransition
import Bullions.Vm.Analysis
import Bullions.Vm.Properties.Analysis
import Bullions.Ethash.Reward
import Bullions.Ethash.Properties.Reward
import Bullions.Lib.GoMap
import Bullions.Fetcher.TxFetcher
import Bullions.Fetcher.Properties.TxFetcher
import Bullions.Params.Compat
import Bullions.Params.Properties.Compat
import Bullions.Params.BigMap
import Bullions.Params.Properties.BigMap
import Bullions.Lib.Endian
import Bullions.Ethash.Algorithm
import Bullions.Ethash.Properties.Algorithm
import Bullions.Types.Signing
import Bullions.Types.Properties.Signing
import Bullions.Rlp.Raw
import Bullions.Rlp.Properties.Raw
import Bullions.Rlp.Properties.Int
import Bullions.Lib.RWMutex
import Bullions.Core.TxPoolLock
import Bullions.Core.Properties.TxPoolLock
import Bullions.Lib.GoHeap
import Bullions.Core.TxList
import Bullions.Core.Properties.TxSortedMap
import Bullions.Core.Properties.TxList
import Bullions.Les.FlowControl
import Bullions.Les.Properties.FlowControl
import Bullions.Lib.ByteBits
import Bullions.Bitutil.Compress
import Bullions.Bitutil.Properties.Compress
import Bullions.Lib.Positional
import Bullions.Hexutil.Hexutil
import Bullions.Hexutil.Properties.Hexutil
import Bullions.Trie.Decode
import Bullions.Trie.Properties.Decode
import Bullions.Lib.HeapIface
import Bullions.Lib.WrapOrder
import Bullions.Lib.Chunked
import Bullions.Prque.Prque
import Bullions.Prque.Properties.Sstack
import Bullions.Prque.Properties.Prque
import Bullions.Prque.Properties.Run
import Bullions.Prque.LazyQueue
import Bullions.Prque.Properties.LazyQueue
import Bullions.Prque.Properties.LazyRun
