import Docich.Captions.Protocol
import Docich.Trading.AverageCost
import Docich.Trading.Limits
import Docich.Trading.Routes
import Docich.Trading.Delivery
import Docich.Tsuitate.Checks
import Docich.Tsuitate.Inspect
import Docich.Captions.RoundTrip
import Docich.Othello.Corner
import Docich.Osc.Loop
import Docich.Osc.Delivery
import Docich.Predictions.Bounded
import Docich.MoveGate.Lockstep
import Docich.ProgramSlot.Safety
import Docich.BetaSession.Once
import Docich.Trpg.Votes
import Docich.Trading.Latch
import Docich.ViewerMemory.Retention
import Docich.Webhook.Runs
import Docich.Puyo.Chain
import Docich.PuyoProgram.Release
import Docich.FileLock.Progress
import Docich.Rotation.Announced
import Docich.DiscordChat.Forgotten
import Docich.HanjukuWager.Kept
import Docich.News.EventUse
import Docich.Trading.Benchmark
import Docich.News.ProtectiveExit
import Docich.Markets.Ratchet
import Docich.News.Confirmation
import Docich.News.Expiry
import Docich.Rotation.Replays
import Docich.Shogi.Kifu
import Docich.Othello.Chat
import Docich.ProgramSlot.Probe
import Docich.Osc.Codec
import Docich.FreeStrategy.Observed
import Docich.Speech.Chunks
import Docich.Speech.Pause
import Docich.News.ObservationStore
import Docich.News.Episodes
import Docich.News.Reproducible
import Docich.FreeStrategy.Sandbox
